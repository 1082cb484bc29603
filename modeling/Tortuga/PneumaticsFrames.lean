import Tortuga.Matchers
import Tortuga.Pneumatics

/-!
What the pneumatics board takes from its UART (`pneumatics_control.c`): the bytes that it
is synchronised by, and the frames that it executes after them.
-/
namespace Tortuga.PneumaticsFrames
open Tortuga.Programs Tortuga.BusCodes Tortuga.Pneumatics Tortuga.Matchers
set_option linter.unusedSimpArgs false

/-! ### What is heard -/

/-- "Wait for 0xDEAFBEEF". -/
def syncPattern : List Byte := [0xDE#8, 0xAF#8, 0xBE#8, 0xEF#8]

/-- Four bytes, of which the last is a checksum. -/
abbrev Frame := Byte × Byte × Byte × Byte

def intact : Frame → Bool
  | (b0, b1, b2, b3) => decide (b3 = b0 + b1 + b2)

/-- A stream in frames, without the bytes at its end that are too few for one. -/
def frames : List Byte → List Frame
  | b0 :: b1 :: b2 :: b3 :: rest => (b0, b1, b2, b3) :: frames rest
  | _ => []

/-- The frames of a stream with a good checksum. -/
def intactFrames (bytes : List Byte) : List Frame := (frames bytes).filter intact

/-- What can be told from a trace: the bytes received, whether the frame loop has begun, the bytes of
    the frame that is not answered yet, and the frames whose answer began with 'K'. Upon that 'K'
    the loop goes on with `execute`. -/
structure Heard where
  bytes : List Byte
  synced : Bool
  current : Option (List Byte)
  executed : List Frame

def hear (h : Heard) : BoardEvent → Heard
  | .iter .frame => { h with synced := true, current := some [] }
  | .call .uartRX b => { h with bytes := h.bytes ++ [b], current := h.current.map fun bytes => bytes ++ [b] }
  | .call (.writeUart c) _ =>
    match h.current with
    | some [b0, b1, b2, b3] =>
      { h with current := none, executed := if c = ch 'K' then h.executed ++ [(b0, b1, b2, b3)] else h.executed }
    | _ => h
  | _ => h

def nothing : Heard := ⟨[], false, none, []⟩

/-- What is executed of a stream of bytes from the start of the board on. -/
def executable (bytes : List Byte) : List Frame := ((remainder syncPattern 0 bytes).map intactFrames).getD []

/-- Nothing is left to be done for the bytes received. -/
def UpToDate (h : Heard) : Prop :=
  (h.synced = true ↔ (remainder syncPattern 0 h.bytes).isSome = true) ∧ h.executed = executable h.bytes

/-- The board waits for a byte only when it is up to date. -/
def listener : Monitor Op Ans Loop Interrupt Heard where
  next := hear
  allows _ _ := True
  demands h e := match e with
    | .call .uartRXwait _ => UpToDate h
    | _ => True
  faults _ := True

/-! ### Steps -/

theorem still : Still listener := fun _ _ _ => rfl

section
variable {α β : Type} {Q : α → Heard → Prop} {h : Heard}

theorem wp_ret {a : α} (holds : Q a h) : wp listener (.ret a) Q h := still.ret holds

/-- A request other than a wait. -/
theorem wp_request {o : Op} {k : Ans o → Io α} (other : o ≠ .uartRXwait)
    (rest : ∀ a, wp listener (k a) Q (hear h (.call o a))) : wp listener (.ask o k) Q h := by
  refine still.ask fun a _ => ⟨?_, rest a⟩
  cases o with
  | uartRXwait => exact absurd rfl other
  | _ => trivial

theorem wp_wait {k : Unit → Io α} (ready : UpToDate h) (rest : wp listener (k ()) Q h) :
    wp listener (.ask .uartRXwait k) Q h := still.ask fun _ _ => ⟨ready, rest⟩

/-- A byte is received. -/
def Heard.add (h : Heard) (b : Byte) : Heard :=
  { h with bytes := h.bytes ++ [b], current := h.current.map fun bytes => bytes ++ [b] }

theorem wp_rx {k : Byte → Io α} (rest : ∀ b, wp listener (k b) Q (h.add b)) : wp listener (.ask .uartRX k) Q h :=
  wp_request (by decide) rest

theorem wp_receive {k : Byte → Io α} (ready : UpToDate h) (rest : ∀ b, wp listener (k b) Q (h.add b)) :
    wp listener (receive >>= k) Q h :=
  wp_wait ready (wp_rx rest)

/-- A text that is no answer to a frame. -/
theorem wp_write {k : Unit → Io α} (str : List Char) (idle : ∀ c, hear h (.call (.writeUart c) ()) = h)
    (rest : wp listener (k ()) Q h) : wp listener (write str >>= k) Q h := by
  induction str with
  | nil => exact rest
  | cons c str ih =>
    refine wp_request (by simp) fun _ => ?_
    rw [idle]
    exact ih

end

/-! ### Programs that receive nothing -/

/-- The program changes nothing that is heard, when no frame waits for its answer. -/
def Quiet {α : Type} (p : Io α) : Prop := ∀ h : Heard, h.current = none → wp listener p (fun _ t => t = h) h

section
variable {α β : Type}

theorem quiet_ret (a : α) : Quiet (.ret a : Io α) := fun _ _ => wp_ret rfl

theorem Quiet.bind {p : Io α} {f : α → Io β} (first : Quiet p) (rest : ∀ a, Quiet (f a)) : Quiet (p >>= f) := by
  intro h none
  refine wp_bind (wp_mono ?_ (first h none))
  rintro a t rfl
  exact rest a t none

theorem quiet_ask {o : Op} {k : Ans o → Io α} (other : o ≠ .uartRXwait)
    (same : ∀ h a, h.current = none → hear h (.call o a) = h) (rest : ∀ a, Quiet (k a)) : Quiet (.ask o k) := by
  intro h none
  refine wp_request other fun a => ?_
  rw [same h a none]
  exact rest a h none

theorem quiet_ite {c : Prop} [Decidable c] {p q : Io α} (yes : Quiet p) (no : Quiet q) : Quiet (if c then p else q) := by
  split
  · exact yes
  · exact no

theorem hear_write {h : Heard} (none : h.current = none) (c : Byte) : hear h (.call (.writeUart c) ()) = h := by
  simp only [hear, none]

theorem quiet_write (str : List Char) : Quiet (write str) := by
  induction str with
  | nil => exact quiet_ret ()
  | cons c rest ih => exact quiet_ask (by simp) (fun _ _ none => hear_write none _) fun _ => ih

theorem quiet_each {op : ℕ → Io Unit} (one : ∀ i, Quiet (op i)) (i count : ℕ) : Quiet (each op i count) := by
  induction count generalizing i with
  | zero => exact quiet_ret ()
  | succ count ih => exact (one i).bind fun _ => ih (i + 1)

theorem quiet_clearAll : Quiet clearAll :=
  quiet_each (fun _ => quiet_ask (by simp) (fun _ _ _ => rfl) quiet_ret) 0 validBits

theorem quiet_voidAll : Quiet voidAll :=
  quiet_clearAll.bind fun _ => quiet_each (fun _ => quiet_ask (by simp) (fun _ _ _ => rfl) quiet_ret) 0 12

theorem quiet_offAll : Quiet offAll :=
  quiet_clearAll.bind fun _ => quiet_each (fun _ => quiet_ask (by simp) (fun _ _ _ => rfl) quiet_ret) 0 12

theorem quiet_addCmd (cmd : PairCommand) (pair : ℕ) (count : Int) : Quiet (addCmd cmd pair count) :=
  quiet_ask (by simp) (fun _ _ _ => rfl) fun _ => quiet_ite (quiet_ret ()) (quiet_write _)

theorem quiet_movePiston (first second : ℕ) : Quiet (movePiston first second) :=
  (quiet_addCmd _ _ _).bind fun _ => (quiet_addCmd _ _ _).bind fun _ => (quiet_addCmd _ _ _).bind fun _ =>
    (quiet_addCmd _ _ _).bind fun _ => quiet_addCmd _ _ _

theorem quiet_extendPiston (piston : ℕ) : Quiet (extendPiston piston) := by
  unfold extendPiston
  split
  · exact quiet_ret ()
  · exact quiet_movePiston _ _

theorem quiet_retractPiston (piston : ℕ) : Quiet (retractPiston piston) := by
  unfold retractPiston
  split
  · exact quiet_ret ()
  · exact quiet_movePiston _ _

theorem Quiet.result {p : Io Unit} (first : Quiet p) (a : α) : Quiet (p >>= fun _ => pure a) := first.bind fun _ => quiet_ret a

theorem quiet_checked {max n : Byte} {op : ℕ → Io Unit} (good : ∀ i, Quiet (op i)) : Quiet (checked max n op) :=
  quiet_ite (quiet_write _) (good _)

theorem quiet_busCommand (cmd : Byte) (m : Markers) : Quiet (busCommand cmd m) := by
  have add (c : PairCommand) (pair : ℕ) := quiet_addCmd c pair 1
  unfold busCommand
  refine quiet_ite ((quiet_retractPiston _).result m) (quiet_ite ((quiet_retractPiston _).result m) ?_)
  refine quiet_ite ((add _ _).bind fun _ => (add _ _).result m) (quiet_ite ((add _ _).bind fun _ => (add _ _).result m) ?_)
  refine quiet_ite ((quiet_extendPiston _).result m) (quiet_ite ((quiet_extendPiston _).result m) ?_)
  refine quiet_ite ((quiet_extendPiston _).bind fun _ => (quiet_extendPiston _).result m) ?_
  refine quiet_ite ((quiet_retractPiston _).bind fun _ => (quiet_retractPiston _).result m) ?_
  refine quiet_ite ((add _ _).bind fun _ => (add _ _).bind fun _ => (add _ _).bind fun _ => (add _ _).result m) ?_
  refine quiet_ite (quiet_ite ((quiet_retractPiston _).result _) ((quiet_extendPiston _).result _)) ?_
  refine quiet_ite (quiet_ite ((quiet_retractPiston _).result _) ((quiet_extendPiston _).result _)) ?_
  exact quiet_ite (quiet_voidAll.result m) (quiet_ite (quiet_offAll.result m) ((quiet_write _).result m))

theorem quiet_execute (b0 b1 b2 : Byte) (m : Markers) : Quiet (execute b0 b1 b2 m) := by
  have numbered (cmd : PairCommand) : Quiet (checked 11 b2 fun pair => addCmd cmd pair 1) :=
    quiet_checked fun _ => quiet_addCmd _ _ _
  exact quiet_ite (quiet_voidAll.result m) (quiet_ite ((numbered .void).result m) (quiet_ite ((numbered .fill).result m)
    (quiet_ite ((quiet_checked fun _ => quiet_extendPiston _).result m)
    (quiet_ite ((quiet_checked fun _ => quiet_retractPiston _).result m) (quiet_ite ((numbered .off).result m)
    (quiet_ite (quiet_offAll.result m) (quiet_ite (quiet_busCommand b2 m) ((quiet_write _).result m))))))))

end

/-! ### The sync loop -/

/-- The sync loop has seen `k` bytes of the pattern. -/
structure Syncing (k : ℕ) (h : Heard) : Prop where
  synced : h.synced = false
  current : h.current = none
  executed : h.executed = []
  bytes : ∀ later, remainder syncPattern 0 (h.bytes ++ later) = remainder syncPattern k later

/-- The whole pattern has come just now. -/
structure Synced (h : Heard) : Prop where
  current : h.current = none
  executed : h.executed = []
  bytes : ∀ later, remainder syncPattern 0 (h.bytes ++ later) = some later

theorem syncing_nothing : Syncing 0 nothing := ⟨rfl, rfl, rfl, fun _ => rfl⟩

theorem Syncing.upToDate {k : ℕ} {h : Heard} (syncing : Syncing k h) : UpToDate h := by
  have unfound : remainder syncPattern 0 h.bytes = none := by
    have now := syncing.bytes []
    rwa [List.append_nil] at now
  rw [UpToDate, syncing.synced, syncing.executed, executable, unfound]
  simp

/-- The byte that the pattern goes on with. -/
theorem Syncing.go {k : ℕ} {h : Heard} {b : Byte} (syncing : Syncing k h) (next : syncPattern[k]? = some b)
    (last : k + 1 ≠ syncPattern.length) : Syncing (k + 1) (h.add b) := by
  refine ⟨syncing.synced, by simp [Heard.add, syncing.current], syncing.executed, fun later => ?_⟩
  rw [Heard.add, List.append_assoc, syncing.bytes, List.singleton_append, remainder, if_pos next, if_neg last]

/-- Any other byte makes the loop start over. -/
theorem Syncing.fail {k : ℕ} {h : Heard} {b : Byte} (syncing : Syncing k h) (other : syncPattern[k]? ≠ some b) :
    Syncing 0 (h.add b) := by
  refine ⟨syncing.synced, by simp [Heard.add, syncing.current], syncing.executed, fun later => ?_⟩
  rw [Heard.add, List.append_assoc, syncing.bytes, List.singleton_append, remainder, if_neg other]

theorem Syncing.last {h : Heard} (syncing : Syncing 3 h) : Synced (h.add 0xEF#8) := by
  refine ⟨by simp [Heard.add, syncing.current], syncing.executed, fun later => ?_⟩
  rw [Heard.add, List.append_assoc, syncing.bytes]
  rfl

/-- Writing between the bytes of the pattern. -/
theorem wp_echo {α : Type} {k : Unit → Io α} {Q : α → Heard → Prop} {h : Heard} (str : List Char) (none : h.current = none)
    (rest : wp listener (k ()) Q h) : wp listener (write str >>= k) Q h :=
  wp_write str (hear_write none) rest

/-- Any byte but the next one of the pattern makes the loop start over. -/
theorem Syncing.expect {k : ℕ} {h : Heard} {b b' : Byte} {p : Io Bool} (syncing : Syncing k h) (next : syncPattern[k]? = some b)
    (rest : wp listener p (fun done t => if done then Synced t else Syncing 0 t) (h.add b)) :
    wp listener (if b' ≠ b then .ret false else p) (fun done t => if done then Synced t else Syncing 0 t) (h.add b') := by
  split
  case isTrue other => exact wp_ret (syncing.fail fun same => other (Option.some_inj.mp (same.symm.trans next)))
  case isFalse same =>
    obtain rfl := not_not.mp same
    exact rest

theorem wp_sync {h : Heard} (start : Syncing 0 h) :
    wp listener sync (fun done t => if done then Synced t else Syncing 0 t) h := by
  refine wp_wait start.upToDate (wp_echo _ start.current (wp_rx fun b0 => ?_))
  rw [Prog.ret_bind]
  refine start.expect (b := 0xDE) rfl ?_
  have one := start.go (b := 0xDE) rfl (by decide)
  refine wp_echo _ one.current (wp_receive one.upToDate fun b1 => one.expect (b := 0xAF) rfl ?_)
  have two := one.go (b := 0xAF) rfl (by decide)
  refine wp_echo _ two.current (wp_receive two.upToDate fun b2 => two.expect (b := 0xBE) rfl ?_)
  have three := two.go (b := 0xBE) rfl (by decide)
  refine wp_echo _ three.current (wp_receive three.upToDate fun b3 => three.expect (b := 0xEF) rfl ?_)
  exact wp_echo _ three.last.current (wp_ret three.last)

/-! ### The frame loop -/

theorem frames_append {first : List Byte} (whole : 4 ∣ first.length) (rest : List Byte) :
    frames (first ++ rest) = frames first ++ frames rest := by
  induction first using frames.induct with
  | case1 b0 b1 b2 b3 first ih =>
    simp only [List.cons_append, frames, List.cons.injEq, true_and]
    refine ih ?_
    simp only [List.length_cons] at whole
    omega
  | case2 first short =>
    have nothing : first = [] := by
      match first, short with
      | [], _ => rfl
      | [_], _ | [_, _], _ | [_, _, _], _ => simp at whole
      | b0 :: b1 :: b2 :: b3 :: rest, short => exact absurd rfl (short b0 b1 b2 b3 rest)
    rw [nothing]
    rfl

theorem frames_short {bytes : List Byte} (few : bytes.length < 4) : frames bytes = [] := by
  match bytes with
  | [] | [_] | [_, _] | [_, _, _] => rfl
  | _ :: _ :: _ :: _ :: rest =>
    simp only [List.length_cons] at few
    omega

/-- After the pattern some whole frames have come, and `part` of the next one. -/
structure Framing (part : List Byte) (h : Heard) : Prop where
  synced : h.synced = true
  current : h.current = some part
  stream : ∃ whole, 4 ∣ whole.length ∧ h.executed = intactFrames whole ∧
    ∀ later, remainder syncPattern 0 (h.bytes ++ later) = some (whole ++ part ++ later)

theorem Framing.upToDate {part : List Byte} {h : Heard} (framing : Framing part h) (few : part.length < 4) : UpToDate h := by
  obtain ⟨whole, fours, executed, bytes⟩ := framing.stream
  have found : remainder syncPattern 0 h.bytes = some (whole ++ part) := by
    have now := bytes []
    rwa [List.append_nil, List.append_nil] at now
  have same : intactFrames (whole ++ part) = intactFrames whole := by
    rw [intactFrames, frames_append fours, frames_short few, List.append_nil]
    rfl
  refine ⟨by simp [framing.synced, found], ?_⟩
  rw [executable, found, executed]
  exact same.symm

theorem Framing.go {part : List Byte} {h : Heard} (framing : Framing part h) (b : Byte) :
    Framing (part ++ [b]) (h.add b) := by
  obtain ⟨whole, fours, executed, bytes⟩ := framing.stream
  refine ⟨framing.synced, by simp [Heard.add, framing.current], whole, fours, executed, fun later => ?_⟩
  rw [Heard.add, List.append_assoc, bytes]
  simp

theorem wp_next {α : Type} {k : Byte → Io α} {Q : α → Heard → Prop} {part : List Byte} {h : Heard} (framing : Framing part h)
    (few : part.length < 4) (rest : ∀ b, wp listener (k b) Q (h.add b)) : wp listener (receive >>= k) Q h :=
  wp_receive (framing.upToDate few) rest

/-- A frame has been answered. -/
structure Answered (h : Heard) : Prop where
  synced : h.synced = true
  current : h.current = none
  stream : ∃ whole, 4 ∣ whole.length ∧ h.executed = intactFrames whole ∧
    ∀ later, remainder syncPattern 0 (h.bytes ++ later) = some (whole ++ later)

/-- The first character of the answer tells whether the frame is executed. -/
theorem Framing.answer {b0 b1 b2 b3 : Byte} {h : Heard} (framing : Framing [b0, b1, b2, b3] h) {c : Byte}
    (good : c = ch 'K' ↔ b3 = b0 + b1 + b2) : Answered (hear h (.call (.writeUart c) ())) := by
  obtain ⟨whole, fours, executed, bytes⟩ := framing.stream
  have heard : hear h (.call (.writeUart c) ()) = { h with
      current := none, executed := if c = ch 'K' then h.executed ++ [(b0, b1, b2, b3)] else h.executed } := by
    simp only [hear, framing.current]
  rw [heard]
  refine ⟨framing.synced, rfl, whole ++ [b0, b1, b2, b3], ?_, ?_, bytes⟩
  · simp only [List.length_append, List.length_cons, List.length_nil]
    omega
  · simp only [intactFrames, frames_append fours, frames, List.filter_append, executed]
    by_cases right : b3 = b0 + b1 + b2
    · simp [intact, right, good.mpr right]
    · simp [intact, right, mt good.mp right]

theorem wp_frame {h : Heard} (start : Framing [] h) (m : Markers) : wp listener (frame m) (fun _ => Answered) h := by
  refine wp_next start (by decide) fun b0 => wp_next (start.go b0) (by simp) fun b1 => wp_next ((start.go b0).go b1) (by simp)
    fun b2 => wp_next (((start.go b0).go b1).go b2) (by simp) fun b3 => ?_
  have four : Framing [b0, b1, b2, b3] _ := (((start.go b0).go b1).go b2).go b3
  have quiet {p : Io Markers} {c : Byte} (rest : Quiet p) (good : c = ch 'K' ↔ b3 = b0 + b1 + b2) :
      wp listener (.ask (.writeUart c) fun _ => p) (fun _ => Answered) ((((h.add b0).add b1).add b2).add b3) := by
    have answered := four.answer good
    refine wp_request (by simp) fun _ => wp_mono ?_ (rest _ answered.current)
    rintro _ t rfl
    exact answered
  split
  case isTrue wrong =>
    exact quiet ((quiet_write ['C', 'H', 'K']).result m) ⟨fun same => absurd same (by decide), fun right => absurd right wrong⟩
  case isFalse right => exact quiet (quiet_execute b0 b1 b2 m) ⟨fun _ => not_not.mp right, fun _ => rfl⟩

/-! ### The whole board -/

theorem Synced.begin {h : Heard} (synced : Synced h) : Framing [] (hear h (.iter .frame)) :=
  ⟨rfl, rfl, [], by decide, synced.executed, synced.bytes⟩

theorem Answered.begin {h : Heard} (answered : Answered h) : Framing [] (hear h (.iter .frame)) := by
  obtain ⟨whole, fours, executed, bytes⟩ := answered.stream
  refine ⟨rfl, rfl, whole, fours, executed, fun later => ?_⟩
  rw [List.append_nil]
  exact bytes later

theorem wp_main : wp listener main (fun _ _ => False) nothing := by
  refine wp_echo _ rfl ?_
  refine still.loop (fun _ => Syncing 0) syncing_nothing fun _ u syncing _ => ⟨trivial, ?_⟩
  refine wp_bind (wp_mono ?_ (wp_sync (h := u) syncing))
  rintro (_ | _) w post
  · exact wp_ret post
  · refine wp_ret (wp_echo _ post.current ?_)
    refine still.loop (fun _ t => Synced t ∨ Answered t) (.inl post) fun m u start _ => ⟨trivial, ?_⟩
    have begun : Framing [] (hear u (.iter .frame)) := start.elim Synced.begin Answered.begin
    refine wp_bind (wp_mono ?_ (wp_frame begun m))
    intro _ w answered
    exact wp_ret (.inr answered)

/-- A run that has come to a wait is up to date there. -/
theorem run_upToDate {tr : List BoardEvent} {q : Io Empty} (run : Run main (tr ++ [.call .uartRXwait ()]) q) :
    UpToDate (listener.after nothing tr) := by
  have allowed : listener.Along listener.allows nothing (tr ++ [.call .uartRXwait ()]) := listener.along_of_all (fun _ _ => trivial) _ _
  have demanded := (wp_run run allowed wp_main).1
  rw [Monitor.along_append] at demanded
  exact demanded.2.1 trivial

/-- An intact frame at a distance of whole frames is among the intact frames of a stream. -/
theorem mem_intactFrames {earlier later : List Byte} {b0 b1 b2 : Byte} (whole : 4 ∣ earlier.length) :
    (b0, b1, b2, b0 + b1 + b2) ∈ intactFrames (earlier ++ [b0, b1, b2, b0 + b1 + b2] ++ later) := by
  have split : frames (earlier ++ [b0, b1, b2, b0 + b1 + b2] ++ later) =
      frames earlier ++ (b0, b1, b2, b0 + b1 + b2) :: frames later := by
    rw [List.append_assoc, frames_append whole]
    rfl
  rw [intactFrames, split, List.mem_filter]
  exact ⟨List.mem_append_right _ List.mem_cons_self, by simp [intact]⟩

theorem syncPattern_nodup : syncPattern.Nodup := by decide

/-- What the board makes of the bytes received: it is synchronised only behind the pattern, and executes
    nothing before that. In a stream where 0xDE does not break off a part of the pattern it is
    synchronised right behind the first occurrence. From there on it executes exactly the intact
    frames of four bytes each, wherever bytes have been lost or inserted. -/
structure Listened (h : Heard) : Prop where
  before : h.synced = false → h.executed = []
  behind : h.synced = true → ∃ noise rest, h.bytes = noise ++ syncPattern ++ rest ∧ h.executed = intactFrames rest ∧
    ∀ earlier b0 b1 b2 later, rest = earlier ++ [b0, b1, b2, b0 + b1 + b2] ++ later → 4 ∣ earlier.length →
      (b0, b1, b2, b0 + b1 + b2) ∈ h.executed
  first : Unbroken syncPattern 0 h.bytes → (h.synced = true ↔ syncPattern <:+: h.bytes) ∧
    ∀ noise rest, First syncPattern h.bytes noise rest → h.executed = intactFrames rest

theorem listened_of_upToDate {h : Heard} (upToDate : UpToDate h) : Listened h := by
  obtain ⟨synced, executed⟩ := upToDate
  have done {rest : List Byte} (found : remainder syncPattern 0 h.bytes = some rest) : h.executed = intactFrames rest := by
    rw [executed, executable, found]
    rfl
  refine ⟨fun not => ?_, fun yes => ?_, fun unbroken => ⟨?_, fun noise rest first => ?_⟩⟩
  · have unfound : remainder syncPattern 0 h.bytes = none := by
      rw [← Option.not_isSome_iff_eq_none, ← synced, not]
      simp
    rw [executed, executable, unfound]
    rfl
  · obtain ⟨rest, found⟩ := Option.isSome_iff_exists.mp (synced.mp yes)
    obtain ⟨noise, split⟩ := remainder_sound (by decide) found
    refine ⟨noise, rest, by simpa using split, done found, fun earlier b0 b1 b2 later same whole => ?_⟩
    rw [done found, same]
    exact mem_intactFrames whole
  · rw [synced, Option.isSome_iff_exists]
    constructor
    · rintro ⟨rest, found⟩
      obtain ⟨noise, split⟩ := remainder_sound (by decide) found
      exact ⟨noise, rest, by simpa using split.symm⟩
    · intro occurs
      obtain ⟨noise, rest, first⟩ := first_of_occurs occurs
      exact ⟨rest, (remainder_first syncPattern_nodup (by decide) unbroken).mpr ⟨noise, first⟩⟩
  · exact done ((remainder_first syncPattern_nodup (by decide) unbroken).mpr ⟨noise, first⟩)

/-- In every run of the board, whatever comes in, this is so whenever it waits for the next byte. -/
theorem board_listens {tr : List BoardEvent} {q : Io Empty} (run : Run main (tr ++ [.call .uartRXwait ()]) q) :
    Listened (listener.after nothing tr) := listened_of_upToDate (run_upToDate run)

def echoed (str : List Char) : List BoardEvent := str.map fun c => .call (.writeUart (ch c)) ()

def received (bytes : List Byte) : List BoardEvent := bytes.flatMap fun b => [.call .uartRXwait (), .call .uartRX b]

/-- The board receives the pattern. -/
def synchronised : List BoardEvent :=
  echoed ['P', 'N', 'E', 'U'] ++ [.iter .sync, .call .uartRXwait ()] ++ echoed ['G', '\n'] ++ [.call .uartRX 0xDE#8] ++
    echoed ['D', 'E'] ++ received [0xAF#8] ++ echoed ['A', 'F'] ++ received [0xBE#8] ++ echoed ['B', 'E'] ++ received [0xEF#8] ++
    echoed ['E', 'F', 'K'] ++ [.iter .frame]

theorem board_listens_synchronised : Listened (listener.after nothing synchronised) := by
  obtain ⟨q, run⟩ := run_of_follow main (synchronised ++ [.call .uartRXwait ()]) (by decide +kernel)
  exact board_listens run

/-- The byte 0 comes before two good frames of four bytes. -/
def shifted : List BoardEvent :=
  synchronised ++ received [0#8, ch 'V', ch 'O', 1#8] ++ echoed ['N', 'C', 'H', 'K'] ++ [.iter .frame] ++
    received [ch 'V' + ch 'O' + 1#8, ch 'F', ch 'L', 2#8] ++ echoed ['N', 'C', 'H', 'K'] ++ [.iter .frame] ++
    received [ch 'F' + ch 'L' + 2#8]

/-- 0xDE comes once more before the pattern. -/
def broken : List BoardEvent :=
  echoed ['P', 'N', 'E', 'U'] ++ [.iter .sync, .call .uartRXwait ()] ++ echoed ['G', '\n'] ++ [.call .uartRX 0xDE#8] ++
    echoed ['D', 'E'] ++ received [0xDE#8] ++ [0xAF#8, 0xBE#8, 0xEF#8].flatMap (fun b =>
      [.iter .sync, .call .uartRXwait ()] ++ echoed ['G', '\n'] ++ [.call .uartRX b]) ++ [.iter .sync]

/-- After one byte too many between the pattern and the frames, none of them is executed. After one
    0xDE too many before the pattern, it is not found. -/
theorem frames_shift :
    (∃ (tr : List BoardEvent) (q : Io Empty), Run main (tr ++ [.call .uartRXwait ()]) q ∧
      (listener.after nothing tr).bytes = syncPattern ++ 0#8 :: [ch 'V', ch 'O', 1#8, ch 'V' + ch 'O' + 1#8] ++
        [ch 'F', ch 'L', 2#8, ch 'F' + ch 'L' + 2#8] ∧
      (listener.after nothing tr).executed = []) ∧
    ∃ (tr : List BoardEvent) (q : Io Empty), Run main (tr ++ [.call .uartRXwait ()]) q ∧
      (listener.after nothing tr).bytes = 0xDE#8 :: syncPattern ∧ (listener.after nothing tr).synced = false := by
  obtain ⟨q, run⟩ := run_of_follow main (shifted ++ [.call .uartRXwait ()]) (by decide +kernel)
  obtain ⟨q', run'⟩ := run_of_follow main (broken ++ [.call .uartRXwait ()]) (by decide +kernel)
  exact ⟨⟨shifted, q, run, by decide +kernel, by decide +kernel⟩, broken, q', run', by decide +kernel, by decide +kernel⟩

end Tortuga.PneumaticsFrames
