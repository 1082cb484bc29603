import Tortuga.Lockstep
import Tortuga.CommandRules

/-!
Two masters that get the same frame, whatever their variables hold. A rule for each step
says which variables the two agree about after it.
-/
namespace Tortuga.FrameRules
open Tortuga.Programs Tortuga.Lockstep Tortuga.BusCodes Tortuga.Master Tortuga.Commands Tortuga.CommandRules
set_option linter.unusedSimpArgs false

/-! ### What comes in after the first byte of a frame -/

/-- The bytes of the host, with -1 for a lost USB, and what came over the bus since the
    last write. -/
structure Heard where
  host : List Int
  block : List Byte
  deriving DecidableEq

def hear (h : Heard) : MasterEvent → Heard
  | .call .rxByte (some x) => { h with host := h.host ++ [(x.toNat : Int)] }
  | .call .usbPresent false => { h with host := h.host ++ [errNousb] }
  | .call (.busWrite _ _) _ => { h with block := [] }
  | .call (.busRead _) (.byte b) => { h with block := h.block ++ [b] }
  | _ => h

/-- A length and its bytes, with the zero after them, are more than `rxBuf` has room for. -/
def Overfull : List Byte → Prop
  | [] => False
  | len :: data => rxBufSize ≤ len.toNat ∧ data.length = min len.toNat (rxBufSize + 1)

/-- The sum of a frame with the safety sequence. -/
def safetySum (t1 : Int) : Int := (tkSafety.foldl (· + ·) 0#8 + toByte (t1 + hostCmdThrusters.toNat)).toNat

/-- The rest of the frame of the command `c` selects no byte of a table: a battery that
    the leftover `t1` does not refuse, or a thruster when USB was lost in its place. -/
def Misses (c : Byte) (leftover : Int) (host : List Int) : Prop :=
  (c = hostCmdBattctl ∧ leftover ≤ 9 ∧ ∃ x y, host = [x, y] ∧ toByte x + hostCmdBattctl = toByte y ∧
    battCommands.length ≤ (toByte x).toNat) ∨
  (c = hostCmdThrusters ∧ ∃ xs y, host = xs ++ [errNousb, y] ∧ xs.map toByte = tkSafety ∧
    y = safetySum errNousb)

/-- The next access is outside its array. -/
def Overruns (c : Byte) (leftover : Int) (h : Heard) : Prop := Overfull h.block ∨ Misses c leftover h.host

/-- The commands whose parameter may select no byte of their table. -/
def Loose (c : Byte) : Prop := c = hostCmdBattctl ∨ c = hostCmdThrusters

instance (c : Byte) : Decidable (Loose c) := inferInstanceAs (Decidable (_ ∨ _))

theorem not_misses {c : Byte} (strict : ¬ Loose c) (leftover : Int) (host : List Int) : ¬ Misses c leftover host := by
  rintro (⟨same, -⟩ | ⟨same, -⟩)
  · exact strict (.inl same)
  · exact strict (.inr same)

theorem not_overfull_nil : ¬ Overfull [] := id

/-- What a master heard, with what is to hold where it goes on and where it faults. -/
def listen (goes faults : Heard → Prop) : Monitor Op Ans Loop Interrupt Heard where
  next := hear
  allows _ _ := True
  demands h _ := goes h
  faults := faults

/-- A master goes on until an access is outside its array, and there it stops. -/
abbrev frame (c : Byte) (leftover : Int) : Monitor Op Ans Loop Interrupt Heard :=
  listen (fun h => ¬ Overruns c leftover h) (Overruns c leftover)

theorem rely_eq {goes faults : Heard → Prop} {h t : Heard} (rely : (listen goes faults).Rely h t) : t = h :=
  Still.rely_eq (fun _ _ _ => rfl) rely

/-! ### Steps that change nothing that counts -/

/-- Where `I` holds a master may go on, and a write keeps it. -/
structure Steady (goes I : Heard → Prop) : Prop where
  inside : ∀ h, I h → goes h
  written : ∀ h, I h → I { h with block := [] }

namespace Steady
variable {goes faults I : Heard → Prop} (steady : Steady goes I)

theorem stable : Stable (listen goes faults) I := fun _ _ inv _ => inv

theorem ret {α : Type} (a : α) : Keeps (listen goes faults) I (.ret a : Io α) := .ret stable a

include steady

/-- A request whose answer keeps `I`. -/
theorem ask {o : Op} {α : Type} {k : Ans o → Io α} (keeps : ∀ h a, I h → I (hear h (.call o a)))
    (rest : ∀ a, Keeps (listen goes faults) I (k a)) : Keeps (listen goes faults) I (.ask o k) :=
  .ask stable (fun h a inv _ => ⟨steady.inside h inv, keeps h a inv⟩) rest

theorem write (data req : Byte) : Keeps (listen goes faults) I (busWriteByte data req) :=
  steady.ask (fun h _ inv => steady.written h inv) (fun _ => ret _)

theorem send (i : Byte) : Keeps (listen goes faults) I (sendByte i) := steady.ask (fun _ _ inv => inv) (fun _ => ret _)

theorem arms : Keeps (listen goes faults) I setMotorFailsafe :=
  steady.ask (fun _ _ inv => inv) (fun _ => steady.ask (fun _ _ inv => inv) (fun _ => ret _))

theorem writeAll (req : Byte) (bytes : List Byte) : Keeps (listen goes faults) I (writeAll req bytes) := by
  induction bytes with
  | nil => exact ret ()
  | cons data rest ih => exact (steady.write data req).bind (fun _ => ih)

theorem sendAll (bytes : List Byte) : Keeps (listen goes faults) I (sendAll bytes) := by
  induction bytes with
  | nil => exact ret ()
  | cons b rest ih => exact (steady.send b).bind (fun _ => ih)

theorem checkFailsafe : Keeps (listen goes faults) I checkFailsafe := by
  refine steady.ask (fun _ _ inv => inv) (fun tripped => ?_)
  cases tripped with
  | false => exact ret ()
  | true =>
    refine steady.ask (fun _ _ inv => inv) (fun _ => ?_)
    exact (steady.write _ _).bind (fun _ => steady.writeAll _ _)

/-- `waitchar` hears one byte, or that USB is lost. -/
theorem waitchar {Q : Int → Heard → Prop}
    (hears : ∀ h x, I h → -1 ≤ x → Q x { h with host := h.host ++ [x] }) (h : Heard) (inv : I h) :
    wp (listen goes faults) waitchar Q h := by
  have waits : Waits (listen goes faults) I I I Q := {
    clear := stable
    looked := stable
    post := fun _ => stable
    check := steady.checkFailsafe
    again := fun _ inv => inv
    iter := fun h inv _ => ⟨steady.inside h inv, inv⟩
    byte := fun h x inv _ => ⟨steady.inside h inv, hears h x.toNat inv (by omega)⟩
    empty := fun h inv _ => ⟨steady.inside h inv, inv⟩
    present := fun h inv _ => ⟨steady.inside h inv, inv⟩
    lost := fun h inv _ => ⟨steady.inside h inv, hears h errNousb inv (by decide)⟩ }
  exact waits.waitchar h inv

end Steady

/-- Nothing is outside its array; and there is no part of a block when `fresh`. -/
structure Quiet (c : Byte) (leftover : Int) (fresh : Prop) (h : Heard) : Prop where
  inside : ¬ Overruns c leftover h
  empty : fresh → h.block = []

section
variable {c : Byte} {leftover : Int} {fresh : Prop}

/-- After a write the next byte of a block is its length. -/
theorem Quiet.write {h : Heard} (quiet : Quiet c leftover fresh h) : Quiet c leftover True { h with block := [] } := by
  refine ⟨?_, fun _ => rfl⟩
  rintro (overruns | misses)
  · exact overruns
  · exact quiet.inside (.inr misses)

theorem quiet_steady : Steady (fun h => ¬ Overruns c leftover h) (Quiet c leftover fresh) where
  inside _ quiet := quiet.inside
  written _ quiet := ⟨quiet.write.inside, fun _ => rfl⟩

/-- What the host says is quiet for a command that checks its parameter. -/
theorem Quiet.hears {h : Heard} (strict : ¬ Loose c) (host : List Int) (quiet : Quiet c leftover fresh h) :
    Quiet c leftover fresh { h with host := host } := by
  refine ⟨?_, quiet.empty⟩
  rintro (overruns | misses)
  · exact quiet.inside (.inl overruns)
  · exact not_misses strict leftover host misses

/-- The answer to a question about USB. -/
theorem Quiet.present {h : Heard} (strict : ¬ Loose c) (quiet : Quiet c leftover fresh h) (present : Bool) :
    Quiet c leftover fresh (hear h (.call .usbPresent present)) := by
  cases present with
  | false => exact quiet.hears strict _
  | true => exact quiet

theorem quiet_talks (strict : ¬ Loose c) : Talks (frame c leftover) (Quiet c leftover fresh) where
  stable := Steady.stable
  waits := quiet_steady.waitchar (fun _ x quiet _ => quiet.hears strict _)
  writes data req _ := quiet_steady.write data req
  sends := quiet_steady.send
  asks := quiet_steady.ask (fun _ present quiet => quiet.present strict present) (fun _ => Steady.ret _)
  lost := by
    refine .loop Steady.stable (fun h quiet _ => ⟨quiet.inside, quiet⟩) (fun _ => ?_) (fun _ => Steady.ret _)
    refine quiet_steady.ask (fun _ present quiet => quiet.present strict present) (fun present => ?_)
    cases present <;> exact Steady.ret _

end

/-! ### What two masters agree about -/

/-- Cells of `rxBuf` and variables; and whether the next byte of a block is its length. -/
structure Known where
  cells : ℕ → Prop
  t1 : Prop
  t2 : Prop
  fresh : Prop

namespace Known

def nothing : Known := ⟨fun _ => False, False, False, False⟩

/-- `count` cells from `first` on are known as well. -/
def run (K : Known) (first count : ℕ) : Known :=
  { K with cells := fun j => (first ≤ j ∧ j < first + count) ∨ K.cells j }

/-- What is known after `readDataBlock` with the result `r`. -/
def block (K : Known) (r : Int) : Known :=
  { K with cells := fun j => (j = 0 ∨ (j : Int) < r) ∨ K.cells j, fresh := False }

/-- What is known in `L` is known in `K`. -/
structure Below (L K : Known) : Prop where
  cells : ∀ i, L.cells i → K.cells i
  t1 : L.t1 → K.t1
  t2 : L.t2 → K.t2
  fresh : L.fresh → K.fresh

variable {K : Known} {first count : ℕ} {r : Int}

theorem below_fresh : K.Below { K with fresh := True } := ⟨fun _ => id, id, id, fun _ => trivial⟩
theorem stale_below : { K with fresh := False }.Below K := ⟨fun _ => id, id, id, False.elim⟩
theorem stale_below_block : { K with fresh := False }.Below (K.block r) := ⟨fun _ => .inr, id, id, id⟩
theorem below_run : K.Below (K.run first count) := ⟨fun _ => .inr, id, id, id⟩

theorem run_zero_below : (K.run first 0).Below K := by
  refine ⟨fun i known => ?_, id, id, id⟩
  exact known.resolve_left (by omega)

theorem run_succ_below : (K.run first (count + 1)).Below ((K.run first 1).run (first + 1) count) := by
  refine ⟨fun i known => ?_, id, id, id⟩
  rcases known with inside | before
  · by_cases same : i = first
    · exact .inr (.inl (by omega))
    · exact .inl (by omega)
  · exact .inr (.inr before)

/-- A block that has not come is its first cell. -/
theorem block_below_run (short : r ≤ 0) : (K.block r).Below (K.run 0 1) := by
  refine ⟨fun i known => ?_, id, id, False.elim⟩
  rcases known with (first | before) | known
  · exact .inl (by omega)
  · omega
  · exact .inr known

end Known

/-- The two agree about what is known, and nothing is outside its array. -/
structure Agree (c : Byte) (leftover : Int) (K : Known) (m m' : Mem) (h : Heard) : Prop where
  cells : ∀ i, K.cells i → m.rxBuf i = m'.rxBuf i
  t1 : K.t1 → m.t1 = m'.t1
  t2 : K.t2 → m.t2 = m'.t2
  quiet : Quiet c leftover K.fresh h

section
variable {c : Byte} {leftover : Int} {K L : Known} {m m' : Mem} {h : Heard}

theorem Agree.weaken (agree : Agree c leftover K m m' h) (below : L.Below K) : Agree c leftover L m m' h where
  cells i known := agree.cells i (below.cells i known)
  t1 known := agree.t1 (below.t1 known)
  t2 known := agree.t2 (below.t2 known)
  quiet := ⟨agree.quiet.inside, fun known => agree.quiet.empty (below.fresh known)⟩

theorem Agree.set (agree : Agree c leftover K m m' h) (i : ℕ) (b : Byte) : Agree c leftover (K.run i 1)
    { m with rxBuf := Function.update m.rxBuf i b } { m' with rxBuf := Function.update m'.rxBuf i b } h where
  cells j known := by
    by_cases same : j = i
    · simp [same]
    · have before : K.cells j := known.resolve_left (by omega)
      simp [same, agree.cells j before]
  t1 := agree.t1
  t2 := agree.t2
  quiet := agree.quiet

theorem chksum_congr {buf buf' : ℕ → Byte} {n : ℕ} (same : ∀ i < n, buf i = buf' i) (extra : Byte) :
    chksum buf n extra = chksum buf' n extra := by
  rw [chksum_eq, chksum_eq, List.map_congr_left (fun i member => same i (List.mem_range.mp member))]

end

/-- A step after which the two have got the same result and know `K'`. -/
def Lock (c : Byte) (leftover : Int) {α : Type} (K : Known) (p : Main α) (K' : α → Known) : Prop :=
  ∀ m m' h, Agree c leftover K m m' h →
    Paired (frame c leftover) (fun r r' t => r.1 = r'.1 ∧ Agree c leftover (K' r.1) r.2 r'.2 t) (p m) (p m') h

/-- A program at whose end nothing is outside its array. -/
def Ends (c : Byte) (leftover : Int) (K : Known) (p : Main Unit) : Prop :=
  ∀ m m' h, Agree c leftover K m m' h →
    Paired (frame c leftover) (fun _ _ t => ¬ Overruns c leftover t) (p m) (p m') h

section
variable {c : Byte} {leftover : Int} {K : Known} {α β : Type}

/-! ### Putting steps together -/

theorem Lock.bind {K' : α → Known} {K'' : β → Known} {p : Main α} {f : α → Main β} (first : Lock c leftover K p K')
    (rest : ∀ a, Lock c leftover (K' a) (f a) K'') : Lock c leftover K (p >>= f) K'' := by
  intro m m' h agree
  refine (first m m' h agree).bind ?_
  rintro ⟨a, m₁⟩ ⟨_, m₁'⟩ t ⟨rfl, agree⟩
  exact rest a m₁ m₁' t agree

theorem Lock.ends {K' : α → Known} {p : Main α} {f : α → Main Unit} (first : Lock c leftover K p K')
    (rest : ∀ a, Ends c leftover (K' a) (f a)) : Ends c leftover K (p >>= f) := by
  intro m m' h agree
  refine (first m m' h agree).bind ?_
  rintro ⟨a, m₁⟩ ⟨_, m₁'⟩ t ⟨rfl, agree⟩
  exact rest a m₁ m₁' t agree

theorem Lock.finish {K' : Unit → Known} {p : Main Unit} (whole : Lock c leftover K p K') : Ends c leftover K p :=
  fun m m' h agree => (whole m m' h agree).mono (fun _ _ _ post => post.2.quiet.inside)

theorem Lock.weaken {K' L : α → Known} {p : Main α} (strong : Lock c leftover K p K')
    (below : ∀ a, (L a).Below (K' a)) : Lock c leftover K p L := by
  intro m m' h agree
  refine (strong m m' h agree).mono ?_
  rintro r r' t ⟨same, agree⟩
  exact ⟨same, agree.weaken (below r.1)⟩

theorem Lock.pure (a : α) : Lock c leftover K (pure a) (fun _ => K) := by
  intro m m' h agree
  refine .ret (fun t rely => ?_)
  obtain rfl := rely_eq rely
  exact ⟨rfl, agree⟩

theorem Lock.ite {K' : α → Known} {p q : Main α} {cond : Prop} [Decidable cond]
    (yes : cond → Lock c leftover K p K') (no : ¬ cond → Lock c leftover K q K') :
    Lock c leftover K (if cond then p else q) K' := by
  split
  · next holds => exact yes holds
  · next fails => exact no fails

theorem Ends.ite {p q : Main Unit} {cond : Prop} [Decidable cond] (yes : cond → Ends c leftover K p)
    (no : ¬ cond → Ends c leftover K q) : Ends c leftover K (if cond then p else q) := by
  split
  · next holds => exact yes holds
  · next fails => exact no fails

/-- What follows looks only at variables that are known. -/
theorem Ends.get {f : Mem → Main Unit} (same : ∀ m m' h, Agree c leftover K m m' h → f m = f m')
    (rest : ∀ m, Ends c leftover K (f m)) : Ends c leftover K (get >>= f) := by
  intro m m' h agree
  show Paired _ _ (f m m) (f m' m') h
  rw [← same m m' h agree]
  exact rest m m m' h agree

/-! ### Variables -/

theorem Lock.modify {K' : Unit → Known} (f : Mem → Mem)
    (keeps : ∀ m m' h, Agree c leftover K m m' h → Agree c leftover (K' ()) (f m) (f m') h) :
    Lock c leftover K (modify f) K' := by
  intro m m' h agree
  refine .ret (fun t rely => ?_)
  obtain rfl := rely_eq rely
  exact ⟨rfl, keeps m m' _ agree⟩

theorem Lock.setT1 (t : Int) : Lock c leftover K (setT1 t) (fun _ => { K with t1 := True }) :=
  .modify _ (fun _ _ _ agree => ⟨agree.cells, fun _ => rfl, agree.t2, agree.quiet⟩)

theorem Lock.setT2 (t : Int) : Lock c leftover K (setT2 t) (fun _ => { K with t2 := True }) :=
  .modify _ (fun _ _ _ agree => ⟨agree.cells, agree.t1, fun _ => rfl, agree.quiet⟩)

theorem Lock.setRx {i : ℕ} (low : i < rxBufSize) (b : Byte) : Lock c leftover K (setRx i b) (fun _ => K.run i 1) := by
  rw [Master.setRx, if_pos low]
  exact .modify _ (fun _ _ _ agree => agree.set i b)

theorem Lock.rx {i : ℕ} (known : K.cells i) : Lock c leftover K (rx i) (fun _ => K) := by
  intro m m' h agree
  refine .ret (fun t rely => ?_)
  obtain rfl := rely_eq rely
  exact ⟨agree.cells i known, agree⟩

/-- A known cell, for what follows. -/
theorem Ends.rx {i : ℕ} {f : Byte → Main Unit} (known : K.cells i) (rest : ∀ b, Ends c leftover K (f b)) :
    Ends c leftover K (rx i >>= f) := (Lock.rx known).ends rest

theorem Lock.rx_bind {α : Type} {K' : α → Known} {i : ℕ} {f : Byte → Main α} (known : K.cells i)
    (rest : ∀ b, Lock c leftover K (f b) K') : Lock c leftover K (Master.rx i >>= f) K' := (Lock.rx known).bind rest

theorem Lock.countErr (r : Int) : Lock c leftover K (countErr r) (fun _ => K) := by
  refine .modify _ (fun m m' h agree => ?_)
  split
  · exact ⟨agree.cells, fun known => by rw [agree.t1 known], agree.t2, agree.quiet⟩
  · exact agree

/-- A byte of a table, when there is one. -/
theorem Lock.entry (table : List Byte) {i : Int} (low : 0 ≤ i) (high : i < table.length) :
    Lock c leftover K (entry table i) (fun _ => K) := by
  obtain ⟨n, rfl⟩ := Int.eq_ofNat_of_zero_le low
  have inside : n < table.length := by omega
  rw [entry_found (List.getElem?_eq_getElem inside)]
  exact .pure _

/-! ### Input and output -/

theorem Lock.lift {p : Io α} (keeps : Keeps (frame c leftover) (Quiet c leftover K.fresh) p) :
    Lock c leftover K (liftM p) (fun _ => K) := by
  intro m m' h agree
  refine (Paired.diag (keeps h agree.quiet)).bind ?_
  rintro a _ t ⟨rfl, quiet⟩
  refine .ret (fun u rely => ?_)
  obtain rfl := rely_eq rely
  exact ⟨rfl, agree.cells, agree.t1, agree.t2, quiet⟩

theorem Lock.send (i : Byte) : Lock c leftover K (liftM (sendByte i)) (fun _ => K) := .lift (quiet_steady.send i)

theorem Lock.write (data req : Byte) :
    Lock c leftover K (liftM (busWriteByte data req)) (fun _ => { K with fresh := True }) := by
  intro m m' h agree
  refine .ask (fun t rely _ _ => ?_) (fun t rely a _ => ?_)
  · obtain rfl := rely_eq rely
    exact agree.quiet.inside
  · obtain rfl := rely_eq rely
    refine .ret (fun u rely => ?_)
    obtain rfl := rely_eq rely
    exact ⟨rfl, agree.cells, agree.t1, agree.t2, agree.quiet.write⟩

/-- A write that no block comes after. -/
theorem Lock.writes (data req : Byte) : Lock c leftover K (liftM (busWriteByte data req)) (fun _ => K) :=
  (Lock.write data req).weaken (fun _ => Known.below_fresh)

theorem Ends.send (i : Byte) : Ends c leftover K (liftM (sendByte i)) := (Lock.send i).finish
theorem Ends.success : Ends c leftover K success := .send _

theorem Ends.writeOrFail {rest : Main Unit} (holds : Ends c leftover { K with fresh := True } rest) (data req : Byte) :
    Ends c leftover K (writeOrFail data req rest) :=
  (Lock.write data req).ends (fun _ => .ite (fun _ => .send _) (fun _ => holds))

theorem Lock.sendRx (count first : ℕ) (known : ∀ i, first ≤ i → i < first + count → K.cells i) :
    Lock c leftover K (sendRx first count) (fun _ => K) := by
  induction count generalizing first with
  | zero => exact .pure ()
  | succ count ih =>
    refine (Lock.rx (known first (Nat.le_refl first) (by omega))).bind (fun b => (Lock.send b).bind (fun _ => ?_))
    exact ih (first + 1) (fun i low high => known i (by omega) (by omega))

theorem Ends.sendReply (reply : Byte) {count : ℕ} (known : ∀ i < count, K.cells i) :
    Ends c leftover K (sendReply reply count) := by
  refine (Lock.send reply).ends (fun _ => (Lock.sendRx count 0 (fun i _ high => known i (by omega))).ends (fun _ => ?_))
  refine .get (fun m m' h agree => ?_) (fun m => .send _)
  rw [chksum_congr (fun i low => agree.cells i (known i low))]

/-! ### Blocks -/

/-- The two are at `rxPtr` in a block of `len` bytes. -/
structure InBlock (c : Byte) (leftover : Int) (K : Known) (len : Byte) (rxPtr : ℕ) (m m' : Mem) (h : Heard) : Prop where
  selects : ¬ Misses c leftover h.host
  heard : ∃ data, h.block = len :: data ∧ data.length = rxPtr
  part : rxPtr ≤ len.toNat
  room : rxPtr ≤ rxBufSize
  cells : ∀ i, (i = 0 ∨ i < rxPtr) ∨ K.cells i → m.rxBuf i = m'.rxBuf i
  t1 : K.t1 → m.t1 = m'.t1
  t2 : K.t2 → m.t2 = m'.t2

namespace InBlock
variable {len : Byte} {rxPtr : ℕ} {m m' : Mem} {h : Heard} (block : InBlock c leftover K len rxPtr m m' h)
include block

/-- A block overruns when its zero has no cell. -/
theorem overruns_iff : Overruns c leftover h ↔ rxPtr = rxBufSize ∧ rxPtr = len.toNat := by
  obtain ⟨data, same, length⟩ := block.heard
  have part := block.part
  have room := block.room
  simp only [Overruns, same, Overfull, block.selects, or_false, rxBufSize] at room ⊢
  omega

/-- The block after one more byte of it. -/
theorem more (later : rxPtr < len.toNat) (low : rxPtr < rxBufSize) (b : Byte) :
    InBlock c leftover K len (rxPtr + 1) { m with rxBuf := Function.update m.rxBuf rxPtr b }
      { m' with rxBuf := Function.update m'.rxBuf rxPtr b } { h with block := h.block ++ [b] } where
  selects := block.selects
  heard := by
    obtain ⟨data, same, length⟩ := block.heard
    exact ⟨data ++ [b], by rw [same, List.cons_append], by rw [List.length_append, length, List.length_singleton]⟩
  part := later
  room := low
  cells i known := by
    by_cases same : i = rxPtr
    · simp [same]
    · simp [same, block.cells i (known.imp_left (Or.imp_right (fun before => by omega)))]
  t1 := block.t1
  t2 := block.t2

/-- A byte more than `rxBuf` has cells. -/
theorem overruns_more (later : rxPtr < len.toNat) (full : ¬ rxPtr < rxBufSize) (b : Byte) :
    Overruns c leftover { h with block := h.block ++ [b] } := by
  obtain ⟨data, same, length⟩ := block.heard
  have room := block.room
  refine .inl ?_
  simp only [same, List.cons_append, Overfull, List.length_append, List.length_singleton, length, rxBufSize] at room full ⊢
  omega

theorem agree (r : Int) (short : r ≤ rxPtr) (inside : ¬ Overruns c leftover h) : Agree c leftover (K.block r) m m' h where
  cells i known := block.cells i (known.imp_left (Or.imp_right (fun before => by omega)))
  t1 := block.t1
  t2 := block.t2
  quiet := ⟨inside, False.elim⟩

end InBlock

/-- The bytes of a block after its length, from `rxPtr` on. -/
theorem paired_readFrom (req len : Byte) (count rxPtr : ℕ) (m m' : Mem) (h : Heard)
    (left : rxPtr + count = len.toNat) (block : InBlock c leftover K len rxPtr m m' h) :
    Paired (frame c leftover) (fun r r' t => r.1 = r'.1 ∧ Agree c leftover (K.block r.1) r.2 r'.2 t)
      (readFrom req len.toNat rxPtr count m) (readFrom req len.toNat rxPtr count m') h := by
  induction count generalizing rxPtr m m' h with
  | zero =>
    rw [readFrom, Master.setRx]
    by_cases low : rxPtr < rxBufSize
    · rw [if_pos low]
      refine .ret (fun t rely => ?_)
      obtain rfl := rely_eq rely
      have inside : ¬ Overruns c leftover t := fun overruns => by
        have := block.overruns_iff.mp overruns
        omega
      have agree := (block.agree len.toNat (by omega) inside).set rxPtr 0
      exact ⟨rfl, agree.weaken Known.below_run⟩
    · rw [if_neg low]
      have room := block.room
      refine .fault (fun t rely => ?_)
      obtain rfl := rely_eq rely
      exact block.overruns_iff.mpr (by omega)
  | succ count ih =>
    have inside : ¬ Overruns c leftover h := fun overruns => by
      have := block.overruns_iff.mp overruns
      omega
    refine .ask (fun t rely _ _ => ?_) (fun t rely a _ => ?_)
    · obtain rfl := rely_eq rely
      exact inside
    · obtain rfl := rely_eq rely
      cases a with
      | noAck | stuck =>
        refine .ret (fun u rely => ?_)
        obtain rfl := rely_eq rely
        exact ⟨rfl, block.agree _ (by simp [ReadAnswer.code]) inside⟩
      | byte b =>
        show Paired _ _ ((if (b.toNat : Int) < 0 then pure (b.toNat : Int) else
          (setRx rxPtr (toByte b.toNat) >>= fun _ => readFrom req len.toNat (rxPtr + 1) count) : Main Int) m)
          ((if (b.toNat : Int) < 0 then pure (b.toNat : Int) else
          (setRx rxPtr (toByte b.toNat) >>= fun _ => readFrom req len.toNat (rxPtr + 1) count) : Main Int) m') _
        rw [if_neg (by omega), toByte_toNat, Master.setRx]
        by_cases low : rxPtr < rxBufSize
        · rw [if_pos low]
          exact ih (rxPtr + 1) _ _ _ (by omega) (block.more (by omega) low b)
        · rw [if_neg low]
          refine .fault (fun u rely => ?_)
          obtain rfl := rely_eq rely
          exact block.overruns_more (by omega) low b

theorem Lock.readDataBlock (fresh : K.fresh) (req : Byte) :
    Lock c leftover K (readDataBlock req) (fun r => K.block r) := by
  refine (Lock.setRx (i := 0) (by decide) 0).bind (fun _ => ?_)
  intro m m' h agree
  refine .ask (fun t rely _ _ => ?_) (fun t rely a _ => ?_)
  · obtain rfl := rely_eq rely
    exact agree.quiet.inside
  · obtain rfl := rely_eq rely
    cases a with
    | noAck | stuck =>
      refine .ret (fun u rely => ?_)
      obtain rfl := rely_eq rely
      exact ⟨rfl, agree.weaken (Known.block_below_run (by simp [ReadAnswer.code]))⟩
    | byte len =>
      have empty := agree.quiet.empty fresh
      show Paired _ _ ((if (len.toNat : Int) < 0 then Pure.pure (len.toNat : Int) else readFrom req len.toNat 0 len.toNat : Main Int) m)
        ((if (len.toNat : Int) < 0 then Pure.pure (len.toNat : Int) else readFrom req len.toNat 0 len.toNat : Main Int) m') _
      rw [if_neg (by omega)]
      refine paired_readFrom req len len.toNat 0 m m' _ (by omega) ⟨?_, ⟨[], ?_, rfl⟩, by omega, by decide, ?_, agree.t1, agree.t2⟩
      · exact fun misses => agree.quiet.inside (.inr misses)
      · show t.block ++ [len] = [len]
        rw [empty, List.nil_append]
      · exact fun i known => agree.cells i (known.imp_left (fun first => by omega))

theorem Ends.readOrFail {rest : Main Unit} {req : Byte} {len : Int} (fresh : K.fresh)
    (holds : Ends c leftover (K.block len) rest) : Ends c leftover K (readOrFail req len rest) := by
  refine (Lock.readDataBlock fresh req).ends (fun r => .ite (fun _ => .send _) (fun same => ?_))
  obtain rfl : r = len := by simpa using same
  exact holds

end

end Tortuga.FrameRules
