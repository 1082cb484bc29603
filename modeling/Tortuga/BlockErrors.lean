import Tortuga.FrameRules

/-!
Blocks that the master reads from its slaves (`readDataBlock` of `ic1.c`): which of them
leave `rxBuf`, and what the host is told when the bus fails in the middle of one.
-/
namespace Tortuga.BlockErrors
open Tortuga.Programs Tortuga.BusCodes Tortuga.Master Tortuga.Commands
open Tortuga.FrameRules (Overfull)
set_option linter.unusedSimpArgs false

/-! ### Blocks that leave the buffer -/

/-- The bytes that the slaves have given. -/
def taken (block : List Byte) : MasterEvent → List Byte
  | .call (.busRead _) (.byte b) => block ++ [b]
  | _ => block

/-- A master goes on as long as the block has room, and stops where it has none. -/
def room : Monitor Op Ans Loop Interrupt (List Byte) where
  next := taken
  allows _ _ := True
  demands block _ := ¬ Overfull block
  faults := Overfull

theorem room_rely {s t : List Byte} (rely : room.Rely s t) : t = s :=
  Still.rely_eq (fun _ _ _ => rfl) rely

section
variable {m : Mem} {block : List Byte}

theorem room_setRx {i : ℕ} {b : Byte} {f : Unit → Main Int} {Q : Int × Mem → List Byte → Prop}
    (outside : ¬ i < rxBufSize → Overfull block)
    (rest : i < rxBufSize → wp room (f () { m with rxBuf := Function.update m.rxBuf i b }) Q block) :
    wp room ((setRx i b >>= f) m) Q block := by
  show wp room ((setRx i b m).bind fun r => f r.1 r.2) Q block
  unfold setRx
  by_cases inside : i < rxBufSize
  · rw [if_pos inside]
    exact rest inside
  · rw [if_neg inside]
    intro t rely
    rw [room_rely rely]
    exact outside inside

theorem room_ret {α : Type} {a : α} {Q : α → List Byte → Prop} (post : Q a block) : wp room (.ret a) Q block := by
  intro t rely
  rw [room_rely rely]
  exact post

/-- A byte of the bus, or an error. -/
theorem room_read {req : Byte} {f : Int → Main Int} {Q : Int × Mem → List Byte → Prop} (inside : ¬ Overfull block)
    (byte : ∀ b : Byte, wp room (f b.toNat m) Q (block ++ [b])) (error : ∀ r < 0, wp room (f r m) Q block) :
    wp room ((liftM (busReadByte req) >>= f : Main Int) m) Q block := by
  refine wp_lift_bind ?_
  intro t rely a _
  rw [room_rely rely]
  refine ⟨inside, ?_⟩
  cases a with
  | byte b => exact room_ret (byte b)
  | noAck => exact room_ret (error busError (by decide))
  | stuck => exact room_ret (error busFailure (by decide))

/-- The loop of `readDataBlock` after `rxPtr` bytes of the data. -/
theorem room_readFrom (req len : Byte) (count rxPtr : ℕ) (m : Mem) (data : List Byte) (length : data.length = rxPtr)
    (whole : rxPtr + count = len.toNat) (fits : rxPtr ≤ rxBufSize) :
    wp room (readFrom req len.toNat rxPtr count m) (fun _ t => ¬ Overfull t) (len :: data) := by
  induction count generalizing rxPtr m data with
  | zero =>
    rw [readFrom]
    refine room_setRx (fun outside => ?_) fun inside => room_ret ?_
    · simp only [Overfull, rxBufSize] at outside fits ⊢
      omega
    · simp only [Overfull, rxBufSize] at inside ⊢
      omega
  | succ count ih =>
    have inside : ¬ Overfull (len :: data) := by
      simp only [Overfull, rxBufSize] at fits ⊢
      omega
    rw [readFrom]
    refine room_read inside (fun b => ?_) fun r negative => ?_
    · rw [if_neg (by omega)]
      refine room_setRx (fun outside => ?_) fun below => ?_
      · simp only [List.cons_append, Overfull, List.length_append, List.length_singleton, rxBufSize] at outside fits ⊢
        omega
      · exact ih (rxPtr + 1) _ (data ++ [b]) (by simp [length]) (by omega) below
    · rw [if_pos negative]
      exact room_ret inside

theorem room_readDataBlock (req : Byte) (m : Mem) : wp room (readDataBlock req m) (fun _ t => ¬ Overfull t) [] := by
  unfold readDataBlock
  refine room_setRx (fun outside => absurd (by decide) outside) fun _ => ?_
  refine room_read FrameRules.not_overfull_nil (fun len => ?_) fun r negative => ?_
  · rw [if_neg (by omega)]
    exact room_readFrom req len len.toNat 0 _ [] rfl (by omega) (by decide)
  · rw [if_pos negative]
    exact room_ret FrameRules.not_overfull_nil

/-- Every question has an answer. -/
theorem answer_nonempty : ∀ o : Op, Nonempty (Ans o)
  | .rxByte => ⟨none⟩
  | .usbPresent | .readFailsafe => ⟨true⟩
  | .clearFailsafe | .startTimer | .sendByte _ => ⟨()⟩
  | .busWrite _ _ => ⟨.noAck⟩
  | .busRead _ => ⟨.noAck⟩

/-- A program that has room in the end stops exactly where there is none. -/
theorem room_fault {α : Type} {p : Io α} {Q : α → List Byte → Prop} (post : ∀ a t, Q a t → ¬ Overfull t)
    (holds : wp room p Q block) : p = .fault ↔ Overfull block := by
  cases p with
  | ret a => exact ⟨nofun, fun full => absurd full (post a block (holds block .refl))⟩
  | fault => exact ⟨fun _ => holds block .refl, fun _ => rfl⟩
  | ask o k =>
    obtain ⟨a⟩ := answer_nonempty o
    exact ⟨nofun, fun full => absurd full (holds block .refl a trivial).1⟩
  | loop l x body k =>
    obtain ⟨J, start, keeps⟩ := holds block .refl
    exact ⟨nofun, fun full => absurd full (keeps x block start block .refl trivial).1⟩

/-- In every run a block leaves `rxBuf` exactly when it is too long and as much of it comes. -/
theorem readDataBlock_fault {req : Byte} {m : Mem} {tr : List MasterEvent} {q : Io (Int × Mem)}
    (run : Run (readDataBlock req m) tr q) : q = .fault ↔ Overfull (room.after [] tr) := by
  have allowed : room.Along room.allows [] tr := room.along_of_all (fun _ _ => trivial) _ _
  exact room_fault (fun _ _ => id) (wp_run run allowed (room_readDataBlock req m)).2

end

/-! ### What the host is told -/

/-- Whether a byte of a slave did not come, and what the host has got. -/
structure Told where
  broken : Bool
  sent : List Byte

def tell (s : Told) : MasterEvent → Told
  | .call (.busRead _) a => if a.code < 0 then { s with broken := true } else s
  | .call (.sendByte i) _ => { s with sent := s.sent ++ [i] }
  | _ => s

/-- Blocks are read before anything is sent, and after an error only `HOST_REPLY_FAILURE` is sent. -/
def host : Monitor Op Ans Loop Interrupt Told where
  next := tell
  allows _ _ := True
  demands s e := match e with
    | .call (.sendByte i) _ => s.broken = true → s.sent = [] ∧ i = hostReplyFailure
    | .call (.busRead _) _ => s.sent = []
    | _ => True
  faults _ := True

/-- A handler that has done nothing yet. -/
def Fresh (s : Told) : Prop := s.broken = false ∧ s.sent = []

/-- Nothing has happened since, when what breaks a transfer did not. -/
theorem Fresh.still {s t : Told} {P : Prop} (fresh : Fresh s) (reasons : t.broken = true → s.broken = true ∨ P) (never : ¬ P)
    (unsent : t.sent = []) : Fresh t := by
  refine ⟨Bool.eq_false_iff.mpr (fun broken => ?_), unsent⟩
  rcases reasons broken with before | now
  · rw [fresh.1] at before
    cases before
  · exact never now

/-- No error so far. -/
def Whole (s : Told) : Prop := s.broken = false

/-- An error has been reported, and nothing else. -/
def Reported (s : Told) : Prop := s.broken = true → s.sent = [hostReplyFailure]

theorem host_rely {s t : Told} (rely : host.Rely s t) : t = s :=
  Still.rely_eq (fun _ _ _ => rfl) rely

theorem host_stable (I : Told → Prop) : Stable host I := fun _ _ inv _ => inv

/-- A program that neither reads a block nor talks to the host. -/
def Silent {α : Type} (p : Io α) : Prop := ∀ I : Told → Prop, Keeps host I p

section
variable {α β : Type}

theorem silent_ret (a : α) : Silent (.ret a : Io α) := fun I => .ret (host_stable I) a

theorem Silent.bind {p : Io α} {f : α → Io β} (first : Silent p) (rest : ∀ a, Silent (f a)) : Silent (p >>= f) :=
  fun I => (first I).bind fun a => rest a I

theorem silent_ask {o : Op} {k : Ans o → Io α} (quiet : ∀ s a, host.demands s (.call o a) ∧ tell s (.call o a) = s)
    (rest : ∀ a, Silent (k a)) : Silent (.ask o k) := by
  intro I
  refine .ask (host_stable I) (fun s a inv _ => ?_) fun a => rest a I
  obtain ⟨demanded, same⟩ := quiet s a
  exact ⟨demanded, by show I (tell s _); rwa [same]⟩

theorem silent_write (data req : Byte) : Silent (busWriteByte data req) := silent_ask (fun _ _ => ⟨trivial, rfl⟩) fun _ => silent_ret _

theorem silent_writeAll (req : Byte) (bytes : List Byte) : Silent (writeAll req bytes) := by
  induction bytes with
  | nil => exact silent_ret ()
  | cons b rest ih => exact (silent_write b req).bind fun _ => ih

theorem silent_checkFailsafe : Silent checkFailsafe := by
  refine silent_ask (fun _ _ => ⟨trivial, rfl⟩) fun tripped => ?_
  cases tripped with
  | false => exact silent_ret ()
  | true => exact silent_ask (fun _ _ => ⟨trivial, rfl⟩) fun _ => (silent_write _ _).bind fun _ => silent_writeAll _ _

theorem silent_waitchar : Silent waitchar := by
  refine silent_checkFailsafe.bind fun _ I => .loop (host_stable I) (fun s inv _ => ⟨trivial, inv⟩) (fun _ => ?_)
    fun x => .ret (host_stable I) x
  refine (?_ : Silent _) I
  refine silent_ask (fun _ _ => ⟨trivial, rfl⟩) fun x => ?_
  cases x with
  | some x => exact silent_ret _
  | none =>
    refine silent_ask (fun _ _ => ⟨trivial, rfl⟩) fun present => ?_
    cases present with
    | false => exact silent_ret _
    | true => exact silent_checkFailsafe.bind fun _ => silent_ret _

theorem silent_arms : Silent setMotorFailsafe :=
  silent_ask (fun _ _ => ⟨trivial, rfl⟩) fun _ => silent_ask (fun _ _ => ⟨trivial, rfl⟩) fun _ => silent_ret ()

theorem silent_showFrom (line i : ℕ) (str : List Char) : Silent (showFrom line i str) := by
  induction str generalizing i with
  | nil => exact (silent_write _ _).bind fun _ => silent_ret ()
  | cons c rest ih =>
    rw [showFrom]
    split
    · exact (silent_write _ _).bind fun _ => (silent_write _ _).bind fun _ => (silent_write _ _).bind fun _ => ih (i + 1)
    · exact (silent_write _ _).bind fun _ => silent_ret ()

end

/-- A part of a command that neither reads a block nor talks to the host. -/
def SilentAll {α : Type} (p : Main α) : Prop := ∀ I : Told → Prop, KeepsAll host I p

/-- A part of a command that reads no block. -/
abbrev Blind {α : Type} (p : Main α) : Prop := KeepsAll host Whole p

/-- A part of a command with which it ends. -/
abbrev Tells (p : Main Unit) : Prop := LeadsAll host Fresh Reported p

section
variable {α β : Type}

theorem silent_lift {p : Io α} (silent : Silent p) : SilentAll (liftM p : Main α) := fun I => .lift (host_stable I) (silent I)

theorem silent_pure (a : α) : SilentAll (pure a : Main α) := fun I => .pure (host_stable I) a

theorem silent_modify (f : Mem → Mem) : SilentAll (modify f : Main Unit) := fun I => .modify (host_stable I) f

theorem silent_get : SilentAll (get : Main Mem) := fun I => .get (host_stable I)

theorem silent_fault : SilentAll (fun _ => .fault : Main α) := fun _ => .fault fun _ => trivial

theorem SilentAll.bind {p : Main α} {f : α → Main β} (first : SilentAll p) (rest : ∀ a, SilentAll (f a)) : SilentAll (p >>= f) :=
  fun I => (first I).bind fun a => rest a I

theorem SilentAll.before {p : Main α} {f : α → Main β} {I J : Told → Prop} (first : SilentAll p)
    (rest : ∀ a, LeadsAll host I J (f a)) : LeadsAll host I J (p >>= f) := (first I).before rest

theorem SilentAll.ite {c : Prop} [Decidable c] {p q : Main α} (yes : SilentAll p) (no : SilentAll q) :
    SilentAll (if c then p else q) := fun I => .ite (yes I) (no I)

theorem silent_setRx (i : ℕ) (b : Byte) : SilentAll (setRx i b) := (silent_modify _).ite silent_fault

theorem silent_rx (i : ℕ) : SilentAll (rx i) := silent_get.bind fun _ => silent_pure _

theorem silent_entry (table : List Byte) (i : Int) : SilentAll (entry table i) := by
  unfold entry
  split
  · split
    · exact silent_pure _
    · exact silent_fault
  · exact silent_fault

theorem silent_receive (i : ℕ) : SilentAll (receive i) := (silent_lift silent_waitchar).bind fun _ => silent_setRx i _

theorem silent_receiveFrom (first count : ℕ) : SilentAll (receiveFrom first count) := by
  induction count generalizing first with
  | zero => exact silent_pure ()
  | succ count ih => exact (silent_receive first).bind fun _ => ih (first + 1)

theorem silent_byte (data req : Byte) : SilentAll (liftM (busWriteByte data req) : Main Int) := silent_lift (silent_write data req)

theorem silent_printChars (i count : ℕ) : SilentAll (printChars i count) := by
  induction count generalizing i with
  | zero => exact silent_pure _
  | succ count ih =>
    refine (silent_byte _ _).bind fun _ => (silent_rx 16).bind fun _ => (silent_byte _ _).bind fun _ => (silent_rx i).bind fun _ => ?_
    exact (silent_byte _ _).bind fun _ => (ih (i + 1)).ite (silent_pure _)

theorem silent_sendSpeeds (i count : ℕ) : SilentAll (sendSpeeds i count) := by
  induction count generalizing i with
  | zero => exact silent_pure _
  | succ count ih =>
    exact (silent_rx i).bind fun _ => (silent_rx (i + 1)).bind fun _ => (silent_byte _ _).bind fun _ =>
      (silent_modify _).bind fun _ => ih (i + 2)

theorem silent_sendDistro (i count : ℕ) : SilentAll (sendDistro i count) := by
  induction count generalizing i with
  | zero => exact silent_pure _
  | succ count ih =>
    exact (silent_rx _).bind fun _ => (silent_rx _).bind fun _ => (silent_byte _ _).bind fun _ =>
      (silent_modify _).bind fun _ => ih (i + 1)

theorem silent_informDistro : SilentAll informDistro :=
  (silent_byte _ _).bind fun _ => (silent_sendDistro 0 6).ite (silent_modify _)

end

/-! ### Commands that read no block -/

theorem keeps_send (i : Byte) : Keeps host Whole (sendByte i) := by
  refine .ask (host_stable Whole) (fun s _ whole _ => ⟨fun broken => ?_, whole⟩) fun _ => .ret (host_stable Whole) ()
  rw [whole] at broken
  cases broken

theorem blind_send (i : Byte) : Blind (liftM (sendByte i) : Main Unit) := .lift (host_stable Whole) (keeps_send i)

section
variable {rest : Main Unit} (holds : Blind rest)
include holds

theorem blind_writeOrFail (data req : Byte) : Blind (writeOrFail data req rest) :=
  (silent_byte data req).before fun _ => .ite (blind_send _) holds

theorem blind_confirmT1 (cmd : Byte) : Blind (confirmT1 cmd rest) :=
  (silent_lift silent_waitchar).before fun _ => (silent_modify _).before fun _ => .ite (blind_send _) holds

theorem blind_confirm (cmd : Byte) : Blind (confirm cmd rest) :=
  (silent_lift silent_waitchar).before fun _ => .ite (blind_send _) holds

theorem blind_writeReg (reg data : Byte) : Blind (writeReg reg data rest) :=
  blind_writeOrFail (blind_writeOrFail (blind_writeOrFail holds _ _) _ _) _ _

end

theorem blind_success : Blind success := blind_send _

theorem blind_switchT1 (cmd busCmd slave : Byte) : Blind (switchT1 cmd busCmd slave) :=
  blind_confirmT1 (blind_writeOrFail blind_success _ _) _

theorem blind_switch (cmd busCmd slave : Byte) : Blind (switch cmd busCmd slave) :=
  blind_confirm (blind_writeOrFail blind_success _ _) _

theorem blind_param (cmd : Byte) (valid : Byte → Bool) {rest : Byte → Main Unit} (holds : ∀ b, Blind (rest b)) :
    Blind (param cmd valid rest) :=
  (silent_receiveFrom 0 2).before fun _ => silent_get.before fun _ => .ite (blind_send _) (holds _)

/-- A byte of a table for a slave. -/
theorem blind_select (table : List Byte) (i : Int) (slave : Byte) : Blind (do writeOrFail (← entry table i) slave success) :=
  (silent_entry table i).before fun _ => blind_writeOrFail blind_success _ _

theorem blind_setSpeeds : Blind setSpeeds :=
  (silent_modify _).before fun _ => (silent_byte _ _).before fun _ => (silent_sendSpeeds 0 6).before fun _ =>
    silent_informDistro.before fun _ => silent_get.before fun _ => .ite (blind_send _) (blind_send _)

theorem Blind.tells {p : Main Unit} (blind : Blind p) : Tells p := by
  intro m s fresh
  refine wp_mono (fun _ t whole broken => ?_) (blind m s fresh.1)
  rw [whole] at broken
  cases broken

/-! ### Commands that read blocks -/

section
variable {α : Type} {m : Mem} {s : Told}

theorem host_ret {a : α} {Q : α → Told → Prop} (post : Q a s) : wp host (.ret a) Q s := by
  intro t rely
  rw [host_rely rely]
  exact post

theorem host_setRx {i : ℕ} {b : Byte} {f : Unit → Main α} {Q : α × Mem → Told → Prop}
    (rest : wp host (f () { m with rxBuf := Function.update m.rxBuf i b }) Q s) : wp host ((setRx i b >>= f) m) Q s := by
  show wp host ((setRx i b m).bind fun r => f r.1 r.2) Q s
  unfold setRx
  split
  · exact rest
  · intro t _
    exact trivial

/-- A byte of the bus, which is negative when it did not come. -/
theorem host_read {req : Byte} {f : Int → Main α} {Q : α × Mem → Told → Prop} (unsent : s.sent = [])
    (rest : ∀ r : Int, busFailure ≤ r → wp host (f r m) Q (if r < 0 then { s with broken := true } else s)) :
    wp host ((liftM (busReadByte req) >>= f : Main α) m) Q s := by
  refine wp_lift_bind ?_
  intro t rely a _
  rw [host_rely rely]
  have least : busFailure ≤ a.code := by
    cases a with
    | byte b => exact Int.le_trans (by decide) (Int.natCast_nonneg b.toNat)
    | noAck => decide
    | stuck => decide
  exact ⟨unsent, host_ret (rest a.code least)⟩

/-- A block has been read: nothing was sent, and its length is negative when an error is new. -/
structure BlockRead (s : Told) (m : Mem) (r : Int × Mem) (t : Told) : Prop where
  sent : t.sent = []
  broken : t.broken = true → s.broken = true ∨ busFailure ≤ r.1 ∧ r.1 < 0
  t1 : r.2.t1 = m.t1

theorem host_readFrom (req : Byte) (len : Int) (rxPtr count : ℕ) (unsent : s.sent = []) :
    wp host (readFrom req len rxPtr count m) (BlockRead s m) s := by
  induction count generalizing rxPtr m with
  | zero =>
    rw [readFrom]
    exact host_setRx (host_ret ⟨unsent, .inl, rfl⟩)
  | succ count ih =>
    rw [readFrom]
    refine host_read unsent fun r least => ?_
    by_cases negative : r < 0
    · rw [if_pos negative, if_pos negative]
      exact host_ret ⟨unsent, fun _ => .inr ⟨least, negative⟩, rfl⟩
    · rw [if_neg negative, if_neg negative]
      refine host_setRx (wp_mono (fun r t read => ?_) (ih (rxPtr + 1)))
      exact ⟨read.sent, read.broken, read.t1⟩

theorem host_readDataBlock (req : Byte) (unsent : s.sent = []) : wp host (readDataBlock req m) (BlockRead s m) s := by
  unfold readDataBlock
  refine host_setRx (host_read unsent fun r least => ?_)
  by_cases negative : r < 0
  · rw [if_pos negative, if_pos negative]
    exact host_ret ⟨unsent, fun _ => .inr ⟨least, negative⟩, rfl⟩
  · rw [if_neg negative, if_neg negative]
    exact wp_mono (fun r t read => ⟨read.sent, read.broken, read.t1⟩) (host_readFrom req r 0 r.toNat unsent)

/-- The report of a failure. -/
theorem host_failure (unsent : s.sent = []) : wp host ((liftM (sendByte hostReplyFailure) : Main Unit) m) (fun _ => Reported) s := by
  intro t rely a _
  rw [host_rely rely]
  refine ⟨fun _ => ⟨unsent, rfl⟩, host_ret fun _ => ?_⟩
  show s.sent ++ [hostReplyFailure] = _
  rw [unsent]
  rfl

end

section
variable {rest : Main Unit} (holds : Tells rest)
include holds

theorem tells_readOrFail (req : Byte) (len : ℕ) : Tells (readOrFail req len rest) := by
  intro m s fresh
  refine wp_bind (wp_mono (fun r t read => ?_) (host_readDataBlock req fresh.2))
  dsimp only
  split
  · exact host_failure read.sent
  · refine holds r.2 t (fresh.still read.broken ?_ read.sent)
    omega

theorem tells_writeOrFail (data req : Byte) : Tells (writeOrFail data req rest) :=
  (silent_byte data req).before fun _ => .ite (blind_send _).tells holds

theorem tells_confirmT1 (cmd : Byte) : Tells (confirmT1 cmd rest) :=
  (silent_lift silent_waitchar).before fun _ => (silent_modify _).before fun _ => .ite (blind_send _).tells holds

theorem tells_readReg (reg : Byte) : Tells (readReg reg rest) :=
  tells_writeOrFail (tells_writeOrFail (tells_readOrFail holds _ 1) _ _) _ _

end

theorem blind_sendRx (first count : ℕ) : Blind (sendRx first count) := by
  induction count generalizing first with
  | zero => exact silent_pure () Whole
  | succ count ih => exact (silent_rx first).before fun b => (blind_send b).bind fun _ => ih (first + 1)

theorem blind_sendReply (reply : Byte) (count : ℕ) : Blind (sendReply reply count) :=
  (blind_send reply).bind fun _ => (blind_sendRx 0 count).bind fun _ => silent_get.before fun _ => blind_send _

theorem tells_report (cmd busCmd slave : Byte) (len : ℕ) (reply : Byte) : Tells (report cmd busCmd slave len reply) :=
  tells_confirmT1 (tells_writeOrFail (tells_readOrFail (blind_sendReply reply len).tells _ _) _ _) _

theorem tells_simpleCmd (cmd reply slave busCmd : Byte) : Tells (simpleCmd cmd reply slave busCmd) := by
  have answer : Blind (do
      sendByte reply
      sendByte (← rx 0)
      sendByte (reply + (← rx 0)) : Main Unit) :=
    (blind_send _).bind fun _ => (silent_rx 0).before fun b => (blind_send b).bind fun _ => (silent_rx 0).before fun _ => blind_send _
  exact (silent_lift silent_waitchar).before fun _ =>
    .ite (blind_send _).tells (tells_writeOrFail (tells_readOrFail answer.tells _ 1) _ _)

theorem tells_imotor : Tells caseImotor :=
  (silent_receive 0).before fun _ => (silent_rx 0).before fun _ =>
    .ite (blind_send _).tells (tells_writeOrFail (tells_readOrFail (blind_sendReply _ 16).tells _ 16) _ _)

theorem tells_readOvrlimit : Tells caseReadOvrlimit := by
  have answer : Blind (do
      setRx 1 (toByte (← get).t1)
      sendByte hostReplyOvrlimit
      sendByte (← rx 1)
      sendByte (← rx 0)
      sendByte (chksum (← get).rxBuf 2 hostReplyOvrlimit) : Main Unit) :=
    silent_get.before fun _ => (silent_setRx 1 _).before fun _ => (blind_send _).bind fun _ => (silent_rx 1).before fun _ =>
      (blind_send _).bind fun _ => (silent_rx 0).before fun _ => (blind_send _).bind fun _ => silent_get.before fun _ => blind_send _
  exact tells_confirmT1 (tells_readReg ((silent_rx 0).before fun _ => (silent_modify _).before fun _ => tells_readReg answer.tells 1) 0) _

/-- A byte that another board is asked for. -/
theorem tells_askByte (busCmd slave : Byte) {rest : Byte → Main Unit} (holds : ∀ b, Tells (rest b)) :
    Tells (writeOrFail busCmd slave (readOrFail slave 1 (rx 0 >>= rest))) :=
  tells_writeOrFail (tells_readOrFail ((silent_rx 0).before holds) slave 1) busCmd slave

theorem tells_boardstatus : Tells caseBoardstatus := by
  refine tells_confirmT1 ((silent_modify _).before fun _ => ?_) _
  refine tells_askByte _ _ fun _ => (silent_modify _).before fun _ => ?_
  refine tells_askByte _ _ fun _ => (silent_modify _).before fun _ => ?_
  refine tells_writeOrFail (tells_readOrFail (silent_get.before fun _ => ?_) _ 1) _ _
  refine (silent_rx 0).before fun _ => (silent_modify _).before fun _ => silent_get.before fun _ => (silent_setRx 0 _).before fun _ => ?_
  exact silent_get.before fun _ => (silent_setRx 1 _).before fun _ => (blind_sendReply _ 2).tells

theorem tells_temperature : Tells caseTemperature := by
  refine tells_confirmT1 ?_ _
  refine tells_askByte _ _ fun _ => (silent_modify _).before fun _ => ?_
  refine tells_askByte _ _ fun _ => (silent_modify _).before fun _ => ?_
  refine tells_writeOrFail (tells_readOrFail (silent_get.before fun _ => (silent_setRx 5 _).before fun _ => ?_) _ 5) _ _
  exact silent_get.before fun _ => (silent_setRx 6 _).before fun _ => (blind_sendReply _ 7).tells

/-! ### Errors that are counted -/

section
variable {s : Told} {m : Mem}

/-- Errors have been counted: nothing was sent, and there is one more when one is new. -/
def Counted (s : Told) (before after : Int) (t : Told) : Prop :=
  t.sent = [] ∧ before ≤ after ∧ (t.broken = true → s.broken = true ∨ before < after)

theorem Counted.trans {t u : Told} {x y z : Int} (first : Counted s x y t) (more : Counted t y z u) : Counted s x z u := by
  refine ⟨more.1, Int.le_trans first.2.1 more.2.1, fun broken => ?_⟩
  have low := first.2.1
  have high := more.2.1
  rcases more.2.2 broken with before | new
  · rcases first.2.2 before with earlier | new
    · exact .inl earlier
    · exact .inr (by omega)
  · exact .inr (by omega)

/-- A part of a command that is silent leaves everything as it was. -/
theorem wp_silent {α β : Type} {p : Main α} {f : α → Main β} {Q : β × Mem → Told → Prop} (silent : SilentAll p)
    (rest : ∀ a m, wp host (f a m) Q s) : wp host ((p >>= f) m) Q s := by
  refine wp_bind (wp_mono (fun r t same => ?_) (silent (· = s) m s rfl))
  rw [same]
  exact rest r.1 r.2

theorem host_pingSlave (i : Byte) (unsent : s.sent = []) : wp host (pingSlave i m) (fun r t => Counted s 0 r.1 t) s := by
  refine wp_silent (silent_byte _ _) fun r m => ?_
  split
  · refine wp_bind (wp_mono (fun r t read => host_ret ⟨read.sent, ?_, fun broken => ?_⟩) (host_readDataBlock i unsent))
    · exact Int.natCast_nonneg _
    · refine (read.broken broken).imp_right fun negative => ?_
      have nonzero : toByte r.1 ≠ 0 := by
        have error : r.1 = busError ∨ r.1 = busFailure := by
          simp only [busError, busFailure] at negative ⊢
          omega
        rcases error with same | same <;> rw [same] <;> decide
      rw [if_neg nonzero]
      exact Int.zero_lt_one
  · exact host_ret ⟨unsent, Int.natCast_nonneg _, fun _ => .inr Int.zero_lt_one⟩

theorem host_pingSlaves (i count : ℕ) (unsent : s.sent = []) : wp host (pingSlaves i count m) (fun r t => Counted s 0 r.1 t) s := by
  induction count generalizing i m s with
  | zero => exact host_ret ⟨unsent, Int.le_refl _, .inl⟩
  | succ count ih =>
    refine wp_bind (wp_mono (fun r t first => ?_) (host_pingSlave _ unsent))
    refine wp_bind (wp_mono (fun r' t' more => host_ret ?_) (ih (i + 1) first.1))
    refine first.trans ⟨more.1, by push_cast; have := more.2.1; omega, fun broken => ?_⟩
    exact (more.2.2 broken).imp_right fun new => by push_cast; omega

theorem tells_syscheck : Tells caseSyscheck := by
  refine tells_confirmT1 ?_ _
  intro m s fresh
  refine wp_bind (wp_mono (fun r t asked => ?_) (host_pingSlaves 0 numSlaves fresh.2))
  dsimp only
  split
  case isTrue none =>
    refine (blind_send _).tells r.2 t (fresh.still asked.2.2 ?_ asked.1)
    omega
  case isFalse => exact host_failure asked.1

/-- `if(… != 0) t1++`. -/
def count (r : Int) (m : Mem) : Mem := if r ≠ 0 then { m with t1 := m.t1 + 1 } else m

theorem count_le (r : Int) (m : Mem) : m.t1 ≤ (count r m).t1 := by
  unfold count
  split
  · exact Int.le_of_lt (Int.lt_succ m.t1)
  · exact Int.le_refl _

theorem count_lt {r : Int} (m : Mem) (wrong : r ≠ 0) : m.t1 < (count r m).t1 := by
  unfold count
  rw [if_pos wrong]
  exact Int.lt_succ m.t1

theorem wp_countErr {α : Type} {r : Int} {f : Unit → Main α} {Q : α × Mem → Told → Prop}
    (rest : wp host (f () (count r m)) Q s) : wp host ((countErr r >>= f) m) Q s := rest

theorem wp_rx {α : Type} {i : ℕ} {f : Byte → Main α} {Q : α × Mem → Told → Prop} (rest : wp host (f (m.rxBuf i) m) Q s) :
    wp host ((rx i >>= f) m) Q s := rest

theorem host_readMotors (slaves : List (Byte × Byte)) (unsent : s.sent = []) :
    wp host (readMotors slaves m) (fun r t => Counted s m.t1 r.2.t1 t) s := by
  induction slaves generalizing m s with
  | nil => exact host_ret ⟨unsent, Int.le_refl _, .inl⟩
  | cons slave rest ih =>
    refine wp_lift_bind (wp_mono (fun r t same => ?_) (silent_write _ _ (· = s) s rfl))
    subst same
    refine wp_countErr (wp_bind (wp_mono (fun block u read => ?_) (host_readDataBlock slave.1 unsent)))
    refine wp_countErr (wp_rx (wp_bind (wp_mono (fun r' v more => host_ret ?_) (ih read.sent))))
    have written := count_le r m
    have same := read.t1
    refine Counted.trans ⟨read.sent, ?_, fun broken => ?_⟩ more
    · have counted := count_le (block.1 - 1) block.2
      omega
    · refine (read.broken broken).imp_right fun negative => ?_
      have counted := count_lt block.2 (r := block.1 - 1) (by omega)
      omega

theorem blind_sendAll (bytes : List Byte) : Blind (liftM (sendAll bytes) : Main Unit) := by
  have keeps : Keeps host Whole (sendAll bytes) := by
    induction bytes with
    | nil => exact .ret (host_stable Whole) ()
    | cons b rest ih => exact (keeps_send b).bind fun _ => ih
  exact .lift (host_stable Whole) keeps

theorem wp_modify {α : Type} {f : Mem → Mem} {g : Unit → Main α} {Q : α × Mem → Told → Prop} (rest : wp host (g () (f m)) Q s) :
    wp host ((modify f >>= g) m) Q s := rest

theorem tells_motorRead : Tells caseMotorRead := by
  refine tells_confirmT1 ?_ _
  intro m s fresh
  refine wp_modify (wp_bind (wp_mono (fun r t counted => ?_) (host_readMotors mmReads fresh.2)))
  show wp host ((if r.2.t1 ≠ 0 then (liftM (sendByte hostReplyFailure) : Main Unit) else _) r.2) _ t
  split
  case isTrue => exact host_failure counted.1
  case isFalse none =>
    have answer : Blind (do
        sendByte hostCmdMotorReply
        sendAll r.1
        sendByte (chksum (fun i => r.1.getD i 0) 6 hostCmdMotorReply) : Main Unit) :=
      (blind_send _).bind fun _ => (blind_sendAll _).bind fun _ => blind_send _
    have zero : r.2.t1 = 0 := not_not.mp none
    refine answer.tells r.2 t (fresh.still counted.2.2 ?_ counted.1)
    rw [zero]
    exact Int.lt_irrefl 0

end

/-! ### All commands -/

theorem blind_ping : Blind casePing :=
  (silent_lift silent_waitchar).before fun _ => (silent_modify _).before fun _ => .ite (blind_send _) (blind_send _)

theorem blind_setOvrlimit : Blind caseSetOvrlimit :=
  (silent_receiveFrom 0 3).before fun _ => silent_get.before fun _ =>
    .ite (blind_send _) (blind_writeReg (blind_writeReg blind_success _ _) _ _)

theorem blind_switchpower : Blind caseSwitchpower :=
  blind_param _ _ fun _ => (silent_byte _ _).before fun _ => (silent_modify _).before fun _ => .ite (blind_send _) (blind_send _)

theorem blind_hardkill : Blind caseHardkill :=
  (silent_receiveFrom 0 5).before fun _ => silent_get.before fun _ => .ite (blind_send _) (blind_writeOrFail blind_success _ _)

theorem blind_thrusters : Blind caseThrusters := by
  refine (silent_receiveFrom 0 5).before fun _ => (silent_lift silent_waitchar).before fun _ => (silent_modify _).before fun _ => ?_
  refine (silent_lift silent_waitchar).before fun _ => (silent_modify _).before fun _ => silent_get.before fun _ => ?_
  exact .ite (blind_send _) (blind_select tkCommands _ _)

theorem blind_battctl : Blind caseBattctl :=
  (silent_receiveFrom 0 2).before fun _ => silent_get.before fun _ => .ite (blind_send _) (blind_select battCommands _ _)

theorem blind_printtext : Blind casePrinttext := by
  refine (silent_receive 16).before fun _ => (silent_receiveFrom 0 16).before fun _ => (silent_receive 17).before fun _ => ?_
  refine silent_get.before fun _ => .ite (blind_send _) ((silent_printChars 0 16).before fun _ => (silent_byte _ _).before fun _ => ?_)
  exact .ite (blind_send _) (blind_send _)

theorem blind_runtimediag : Blind caseRuntimediag :=
  blind_param _ _ fun _ => (silent_modify _).before fun _ => (silent_lift (silent_showFrom 1 0 _)).before fun _ => blind_success

theorem blind_setspeed : Blind caseSetspeed :=
  (silent_lift silent_arms).before fun _ => (silent_receiveFrom 0 13).before fun _ => silent_get.before fun _ =>
    .ite (blind_send _) blind_setSpeeds

theorem blind_setDerpy : Blind caseSetDerpy :=
  (silent_receiveFrom 0 7).before fun _ => silent_get.before fun _ => .ite (blind_send _) (.ite (blind_send _)
    (blind_writeOrFail (blind_writeOrFail blind_success _ _) _ _))

theorem tells_cases : ∀ p ∈ cases, Tells p.2 := by
  have two (busCmd : Byte) : ∀ b : Byte, Blind (writeOrFail busCmd slaveIdBars (writeOrFail b slaveIdBars success)) :=
    fun b => blind_writeOrFail (blind_writeOrFail blind_success _ _) _ _
  simp only [cases, List.forall_mem_cons, List.not_mem_nil, false_implies, implies_true, and_true]
  exact ⟨blind_success.tells, blind_ping.tells, tells_syscheck, tells_report _ _ _ _ _, tells_simpleCmd _ _ _ _,
    tells_simpleCmd _ _ _ _, (blind_switchT1 _ _ _).tells, (blind_switchT1 _ _ _).tells, tells_simpleCmd _ _ _ _,
    tells_simpleCmd _ _ _ _, tells_readOvrlimit, blind_setOvrlimit.tells, blind_switchpower.tells, tells_boardstatus,
    blind_hardkill.tells, (blind_param _ _ fun _ => blind_writeOrFail blind_success _ _).tells,
    (blind_param _ _ fun _ => blind_select _ _ _).tells, (blind_param _ _ fun _ => blind_select _ _ _).tells,
    (blind_param _ _ (two _)).tells, (blind_param _ _ (two _)).tells, blind_thrusters.tells,
    (blind_param _ _ fun _ => blind_select _ _ _).tells, blind_battctl.tells, tells_temperature, blind_printtext.tells,
    tells_report _ _ _ _ _, (blind_switchT1 _ _ _).tells, blind_runtimediag.tells, blind_setspeed.tells, tells_motorRead,
    tells_imotor, tells_report _ _ _ _ _, tells_report _ _ _ _ _, tells_report _ _ _ _ _, (blind_switchT1 _ _ _).tells,
    (blind_switchT1 _ _ _).tells, (blind_switch _ _ _).tells, (blind_switch _ _ _).tells, (blind_switch _ _ _).tells,
    (blind_switch _ _ _).tells, (blind_switch _ _ _).tells, (blind_switch _ _ _).tells, (blind_switch _ _ _).tells,
    (blind_switch _ _ _).tells, (blind_switch _ _ _).tells, (blind_switch _ _ _).tells, (blind_switch _ _ _).tells,
    (blind_switch _ _ _).tells, (blind_switch _ _ _).tells, (blind_switch _ _ _).tells,
    (blind_confirm (blind_writeOrFail (blind_writeOrFail blind_success _ _) _ _) _).tells, (blind_switch _ _ _).tells,
    blind_setDerpy.tells⟩

theorem tells_dispatch (c : Byte) : Tells (dispatch c) := by
  unfold dispatch
  cases found : cases.lookup c with
  | none => exact Blind.tells (silent_pure () Whole)
  | some p =>
    obtain ⟨before, after, split, -⟩ := List.lookup_eq_some_iff.mp found
    exact tells_cases (c, p) (by simp [split])

/-- What a trace shows of the blocks and of the answers to the host. -/
def told (tr : List MasterEvent) : Told := host.after ⟨false, []⟩ tr

/-- After an error the host has got nothing yet or the report. -/
def Honest (s : Told) : Prop := s.broken = true → s.sent = [] ∨ s.sent = [hostReplyFailure]

theorem honest_next {s : Told} {e : MasterEvent} (honest : Honest s) (demanded : e.Own → host.demands s e) : Honest (tell s e) := by
  cases e with
  | ext e => exact honest
  | iter l => exact honest
  | call o a =>
    have demanded := demanded trivial
    cases o with
    | busRead req =>
      have error : Honest { s with broken := true } := fun _ => .inl demanded
      show Honest (if ReadAnswer.code a < 0 then { s with broken := true } else s)
      by_cases negative : ReadAnswer.code a < 0
      · rwa [if_pos negative]
      · rwa [if_neg negative]
    | sendByte i =>
      intro broken
      obtain ⟨unsent, failure⟩ := demanded broken
      refine .inr ?_
      show s.sent ++ [i] = _
      rw [unsent, failure]
      rfl
    | _ => exact honest

theorem honest_after {s : Told} {tr : List MasterEvent} (honest : Honest s)
    (demanded : host.Along (fun t e => e.Own → host.demands t e) s tr) : Honest (host.after s tr) :=
  host.after_invariant (fun _ _ inv shown => honest_next inv shown) honest demanded

/-- A read of a block from a slave stops at the end of `rxBuf` exactly when the slave announces 60 bytes or more and
    60 bytes come of them, or 61 when it announces more. In every run of a handler nothing but a failure is
    reported to the host once a byte of a slave has not come, and that is reported when the handler ends. -/
theorem block_errors (m : Mem) (tr : List MasterEvent) :
    (∀ (req : Byte) (q : Io (Int × Mem)), Run (readDataBlock req m) tr q → (q = .fault ↔ Overfull (room.after [] tr))) ∧
    ∀ (c : Byte) (q : Io (Unit × Mem)), Run (dispatch c m) tr q → (told tr).broken = true →
      ((told tr).sent = [] ∨ (told tr).sent = [hostReplyFailure]) ∧ ∀ r, q = .ret r → (told tr).sent = [hostReplyFailure] := by
  refine ⟨fun req q run => readDataBlock_fault run, fun c q run broken => ?_⟩
  have allowed : host.Along host.allows ⟨false, []⟩ tr := host.along_of_all (fun _ _ => trivial) _ _
  obtain ⟨demanded, rest⟩ := wp_run run allowed (tells_dispatch c m ⟨false, []⟩ ⟨rfl, rfl⟩)
  refine ⟨honest_after nofun demanded broken, ?_⟩
  rintro r rfl
  exact rest (told tr) .refl broken

/-- A slave announces 60 bytes and gives them. -/
def sixty : List MasterEvent := .call (.busRead 0#8) (.byte 60#8) :: List.replicate 60 (.call (.busRead 0#8) (.byte 0#8))

/-- The zero after the bytes is stored behind the end of `rxBuf`. -/
theorem block_leaves : Run (readDataBlock 0#8 memory) sixty .fault := by
  obtain ⟨q, run⟩ := run_of_follow (readDataBlock 0#8 memory) sixty (by decide +kernel)
  have block : room.after [] sixty = 60#8 :: List.replicate 60 0#8 := by decide +kernel
  have full : Overfull (room.after [] sixty) := by
    rw [block]
    exact ⟨by decide, by decide⟩
  rwa [(readDataBlock_fault run).mpr full] at run

end Tortuga.BlockErrors
