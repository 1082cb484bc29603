import Tortuga.MotorBoard
import Tortuga.Machines

/-!
How the motor board passes commands on to the pneumatics board. The interrupt of the bus
puts a frame at the end of `uartBuf`, the main loop sends the buffer byte by byte.
-/
namespace Tortuga.Forwarding
open Tortuga.BusCodes Tortuga.MotorBoard Tortuga.Machines
set_option linter.unusedSimpArgs false

/-! ### The main loop and the interrupt -/

/-- What the main loop does next. -/
inductive Point where
  | check
  | started
  | sync (left : List Byte)
  | take
  | write (packet : Byte)
  | compare
  | clearPos
  | clearSize
  deriving DecidableEq, Repr

/-- The board with what it has sent to the pneumatics board and the commands it has accepted. -/
structure Board where
  motor : Motor
  point : Point
  sent : List Byte
  accepted : List Byte

/-- A step of the main loop, with what it reads from UTXBF, or a byte of the bus. -/
inductive Act where
  | main (full : Bool)
  | bus (data : Byte)
  deriving DecidableEq, Repr

/-- The bytes that the pneumatics board waits for before its first frame. -/
def syncBytes : List Byte := [0xDE#8, 0xAF#8, 0xBE#8, 0xEF#8]

namespace Board

/-- A step of the main loop. `writeUart` waits while the UART is full. -/
def main (s : Board) (full : Bool) : Board :=
  match s.point with
  | .check => if full = false ∧ s.motor.uartBufPos < s.motor.uartBufSize then { s with point := .started } else s
  | .started => { s with point := if s.motor.sentStart then .take else .sync syncBytes }
  | .sync (packet :: left) => if full then s else { s with sent := s.sent ++ [packet], point := .sync left }
  | .sync [] => { s with motor := { s.motor with sentStart := true }, point := .take }
  | .take =>
    { s with
      motor := { s.motor with uartBufPos := s.motor.uartBufPos + 1 }
      point := .write (s.motor.uartBuf s.motor.uartBufPos) }
  | .write packet => if full then s else { s with sent := s.sent ++ [packet], point := .compare }
  | .compare => { s with point := if s.motor.uartBufPos = s.motor.uartBufSize then .clearPos else .check }
  | .clearPos => { s with motor := { s.motor with uartBufPos := 0 }, point := .clearSize }
  | .clearSize => { s with motor := { s.motor with uartBufSize := 0 }, point := .check }

def next (s : Board) : Act → Board
  | .main full => s.main full
  | .bus data => { s with motor := processData data s.motor, accepted := s.accepted ++ (forwarded data s.motor).toList }

end Board

/-- The board when its main loop begins. -/
def start : Board := ⟨initial, .check, [], []⟩

/-- The frame of a command. -/
def packet (cmd : Byte) : List Byte := [0x42#8, 0x43#8, cmd, 0x42#8 + 0x43#8 + cmd]

/-- What the pneumatics board is to get for the commands `cmds`. -/
def stream (cmds : List Byte) : List Byte := if cmds = [] then [] else syncBytes ++ cmds.flatMap packet

/-- `byte uartBuf[64]`. -/
abbrev bufLength : ℕ := 64

/-- The accepted commands are sent, each once, in order and complete, and nothing else is. When
    the UART takes what it is given and no command comes all of them are sent in the end. -/
structure Exact (s : Board) : Prop where
  sent : s.sent <+: stream s.accepted
  drains : ∃ n, (after Board.next s (List.replicate n (.main false))).sent = stream s.accepted
  read : s.point = .take → s.motor.uartBufPos < bufLength
  filled : s.motor.uartBufSize ≤ bufLength

/-- A command is accepted only when there is space for its frame, and not when the main loop
    has found its buffer empty and is about to say so. -/
def InTime (s : Board) : Act → Prop
  | .main _ => True
  | .bus data => forwarded data s.motor ≠ none →
      s.motor.uartBufSize + 4 ≤ bufLength ∧ s.point ≠ .clearPos ∧ s.point ≠ .clearSize

/-! ### The buffer -/

/-- What is in the buffer and has not been taken. -/
def held (m : Motor) : List Byte := (List.range' m.uartBufPos (m.uartBufSize - m.uartBufPos)).map m.uartBuf

section
variable {m : Motor}

theorem held_nil (same : m.uartBufPos = m.uartBufSize) : held m = [] := by simp [held, same]

theorem held_cons (more : m.uartBufPos < m.uartBufSize) :
    held m = m.uartBuf m.uartBufPos :: held { m with uartBufPos := m.uartBufPos + 1 } := by
  have count : m.uartBufSize - m.uartBufPos = (m.uartBufSize - (m.uartBufPos + 1)) + 1 := by omega
  rw [held, count, List.range'_succ, List.map_cons]
  rfl

theorem lt_of_held (order : m.uartBufPos ≤ m.uartBufSize) (more : held m ≠ []) : m.uartBufPos < m.uartBufSize :=
  Nat.lt_of_le_of_ne order (fun same => more (held_nil same))

/-- Two states of the board with the same buffer. -/
structure SameBuf (m m' : Motor) : Prop where
  buf : m'.uartBuf = m.uartBuf
  size : m'.uartBufSize = m.uartBufSize
  pos : m'.uartBufPos = m.uartBufPos
  sentStart : m'.sentStart = m.sentStart

theorem SameBuf.held {m m' : Motor} (same : SameBuf m m') : held m' = held m := by
  rw [Forwarding.held, Forwarding.held, same.buf, same.size, same.pos]

theorem topLevelCmd_sameBuf {data : Byte} (other : data ∉ forwardedCmds) (m : Motor) : SameBuf m (topLevelCmd data m) :=
  topLevelCmd_cases (P := SameBuf m) (fun _ _ => ⟨rfl, rfl, rfl, rfl⟩) (fun _ => ⟨rfl, rfl, rfl, rfl⟩)
    (fun _ => ⟨rfl, rfl, rfl, rfl⟩) (fun _ => ⟨rfl, rfl, rfl, rfl⟩) (fun _ _ => ⟨rfl, rfl, rfl, rfl⟩)
    (fun member => absurd member other) (fun _ => ⟨rfl, rfl, rfl, rfl⟩) (fun _ => ⟨rfl, rfl, rfl, rfl⟩)
    (fun _ => ⟨rfl, rfl, rfl, rfl⟩)

/-- A byte that is not accepted leaves the buffer alone. -/
theorem processData_sameBuf {data : Byte} (wf : WellFormed m) (none : forwarded data m = none) :
    SameBuf m (processData data m) := by
  rw [forwarded_eq data wf] at none
  cases state : m.busState with
  | topLevel =>
    have other : data ∉ forwardedCmds := fun member => by simp [state, member] at none
    obtain ⟨buf, size, pos, sentStart⟩ := topLevelCmd_sameBuf other { m with txPtr := 0 }
    rw [processData_topLevel data state]
    exact ⟨buf, size, pos, sentStart⟩
  | setMotSpeeds =>
    rw [processData_setMotSpeeds data state, setMotSpeedsParam]
    split
    · rw [takeSpeeds_frame]
      exact ⟨rfl, rfl, rfl, rfl⟩
    · exact ⟨rfl, rfl, rfl, rfl⟩
  | setMotN =>
    rw [processData_setMotN data state, setMotNParam]
    split
    · split
      · exact ⟨rfl, rfl, rfl, rfl⟩
      · exact ⟨rfl, rfl, rfl, rfl⟩
    · exact ⟨rfl, rfl, rfl, rfl⟩
  | setDerpy =>
    rw [processData_setDerpy data state, setDerpyParam]
    split <;> exact ⟨rfl, rfl, rfl, rfl⟩

/-- The frame of `cmd` has come to the end of the buffer. -/
structure Appended (cmd : Byte) (m m' : Motor) : Prop where
  below : ∀ i, i < m.uartBufSize → m'.uartBuf i = m.uartBuf i
  frame : (List.range' m.uartBufSize 4).map m'.uartBuf = packet cmd
  size : m'.uartBufSize = m.uartBufSize + 4
  pos : m'.uartBufPos = m.uartBufPos
  sentStart : m'.sentStart = m.sentStart

theorem forwardCmd_appended (cmd : Byte) (m : Motor) : Appended cmd m (forwardCmd cmd m) where
  below i low := by
    have h₀ : i ≠ m.uartBufSize := by omega
    have h₁ : i ≠ m.uartBufSize + 1 := by omega
    have h₂ : i ≠ m.uartBufSize + 2 := by omega
    have h₃ : i ≠ m.uartBufSize + 3 := by omega
    simp [forwardCmd, Function.update, h₀, h₁, h₂, h₃]
  frame := by simp [forwardCmd, packet, Function.update, List.range']
  size := rfl
  pos := rfl
  sentStart := rfl

theorem processData_appended {data cmd : Byte} (wf : WellFormed m) (some : forwarded data m = some cmd) :
    Appended cmd m (processData data m) := by
  rw [forwarded_eq data wf] at some
  split at some
  case isTrue both =>
    obtain ⟨top, member⟩ := both
    cases Option.some_inj.mp some
    have appended := forwardCmd_appended data { m with txPtr := 0 }
    rw [processData_topLevel data top, topLevelCmd_forwards member]
    exact ⟨appended.below, appended.frame, rfl, rfl, rfl⟩
  case isFalse => contradiction

theorem Appended.held {cmd : Byte} {m m' : Motor} (appended : Appended cmd m m') (order : m.uartBufPos ≤ m.uartBufSize) :
    held m' = held m ++ packet cmd := by
  have count : m'.uartBufSize - m'.uartBufPos = (m.uartBufSize - m.uartBufPos) + 4 := by
    rw [appended.size, appended.pos]
    omega
  have after' : m.uartBufPos + 1 * (m.uartBufSize - m.uartBufPos) = m.uartBufSize := by omega
  rw [Forwarding.held, count, appended.pos, ← List.range'_append, after', List.map_append, appended.frame]
  congr 1
  refine List.map_congr_left (fun i member => appended.below i ?_)
  have := List.mem_range'_1.mp member
  omega

end

/-! ### The invariant -/

/-- What is still to be sent for the commands accepted so far. -/
def rest (s : Board) : List Byte :=
  match s.point with
  | .check | .started => (if s.motor.sentStart then [] else syncBytes) ++ held s.motor
  | .sync left => left ++ held s.motor
  | .take | .compare => held s.motor
  | .write b => b :: held s.motor
  | .clearPos | .clearSize => []

/-- What the main loop knows at each point. -/
def Knows (s : Board) : Prop :=
  match s.point with
  | .check => s.motor.sentStart = false → s.sent = []
  | .started => s.motor.uartBufPos < s.motor.uartBufSize ∧ (s.motor.sentStart = false → s.sent = [])
  | .sync _ => s.motor.uartBufPos < s.motor.uartBufSize
  | .take => s.motor.uartBufPos < s.motor.uartBufSize ∧ s.motor.sentStart = true
  | .write _ | .compare => s.motor.sentStart = true
  | .clearPos => s.motor.uartBufPos = s.motor.uartBufSize ∧ s.motor.sentStart = true
  | .clearSize => s.motor.uartBufPos = 0 ∧ s.motor.sentStart = true

structure Inv (s : Board) : Prop where
  wellFormed : WellFormed s.motor
  order : s.motor.uartBufPos ≤ s.motor.uartBufSize
  room : s.motor.uartBufSize ≤ bufLength
  knows : Knows s
  total : s.sent ++ rest s = syncBytes ++ s.accepted.flatMap packet
  idle : s.accepted = [] → s.point = .check ∧ s.sent = [] ∧ s.motor.uartBufPos = s.motor.uartBufSize

theorem inv_start : Inv start where
  wellFormed := initial_wellFormed
  order := Nat.le_refl 0
  room := by decide
  knows _ := rfl
  total := rfl
  idle _ := ⟨rfl, rfl, rfl⟩

theorem Inv.main {s : Board} (inv : Inv s) (full : Bool) : Inv (s.main full) := by
  obtain ⟨m, point, sent, accepted⟩ := s
  obtain ⟨wellFormed, order, room, knows, total, idle⟩ := inv
  simp only at wellFormed order room total idle
  have busy {P : Prop} (other : point ≠ .check) (none : accepted = []) : P := absurd (idle none).1 other
  cases point with
  | check =>
    simp only [Board.main]
    split
    case isTrue ready =>
      refine ⟨wellFormed, order, room, ⟨ready.2, knows⟩, total, fun none => ?_⟩
      have empty := (idle none).2.2
      have more : m.uartBufPos < m.uartBufSize := ready.2
      omega
    case isFalse => exact ⟨wellFormed, order, room, knows, total, idle⟩
  | started =>
    obtain ⟨more, fresh⟩ := knows
    cases begun : m.sentStart with
    | true =>
      have left : sent ++ held m = syncBytes ++ accepted.flatMap packet := by simpa [rest, begun] using total
      simp only [Board.main, begun, ↓reduceIte]
      exact ⟨wellFormed, order, room, ⟨more, begun⟩, left, busy (by simp)⟩
    | false =>
      have left : sent ++ (syncBytes ++ held m) = syncBytes ++ accepted.flatMap packet := by simpa [rest, begun] using total
      simp only [Board.main, begun, Bool.false_eq_true, ↓reduceIte]
      exact ⟨wellFormed, order, room, more, left, busy (by simp)⟩
  | sync left =>
    cases left with
    | nil => exact ⟨⟨wellFormed.speeds, wellFormed.one⟩, order, room, ⟨knows, rfl⟩, total, busy (by simp)⟩
    | cons b left =>
      simp only [Board.main]
      split
      case isTrue => exact ⟨wellFormed, order, room, knows, total, busy (by simp)⟩
      case isFalse =>
        refine ⟨wellFormed, order, room, knows, ?_, busy (by simp)⟩
        simpa [rest] using total
  | take =>
    obtain ⟨more, begun⟩ := knows
    refine ⟨⟨wellFormed.speeds, wellFormed.one⟩, more, room, begun, ?_, busy (by simp)⟩
    simp only [rest] at total
    rw [held_cons more] at total
    exact total
  | write b =>
    simp only [Board.main]
    split
    case isTrue => exact ⟨wellFormed, order, room, knows, total, busy (by simp)⟩
    case isFalse =>
      refine ⟨wellFormed, order, room, knows, ?_, busy (by simp)⟩
      simpa [rest] using total
  | compare =>
    have begun : m.sentStart = true := knows
    simp only [Board.main]
    split
    case isTrue same =>
      refine ⟨wellFormed, order, room, ⟨same, begun⟩, ?_, busy (by simp)⟩
      simp only [rest] at total ⊢
      rwa [held_nil same] at total
    case isFalse =>
      refine ⟨wellFormed, order, room, fun fresh => ?_, ?_, busy (by simp)⟩
      · simp [begun] at fresh
      · simpa [rest, begun] using total
  | clearPos => exact ⟨⟨wellFormed.speeds, wellFormed.one⟩, Nat.zero_le _, room, ⟨rfl, knows.2⟩, total, busy (by simp)⟩
  | clearSize =>
    obtain ⟨zero, begun⟩ : m.uartBufPos = 0 ∧ m.sentStart = true := knows
    simp only [Board.main]
    refine ⟨⟨wellFormed.speeds, wellFormed.one⟩, Nat.le_of_eq zero, Nat.zero_le _, fun fresh => ?_, ?_, busy (by simp)⟩
    · simp [begun] at fresh
    · simpa [rest, begun, held, zero] using total

/-- A byte that is not accepted changes nothing for the main loop. -/
theorem Inv.quiet {s : Board} (inv : Inv s) {data : Byte} (none : forwarded data s.motor = none) :
    Inv (s.next (.bus data)) := by
  obtain ⟨m, point, sent, accepted⟩ := s
  obtain ⟨wellFormed, order, room, knows, total, idle⟩ := inv
  have same := processData_sameBuf wellFormed none
  have kept : (Board.next ⟨m, point, sent, accepted⟩ (.bus data)) = ⟨processData data m, point, sent, accepted⟩ := by
    simp only at none
    simp [Board.next, none]
  rw [kept]
  refine ⟨processData_wellFormed data wellFormed, ?_, ?_, ?_, ?_, ?_⟩
  · simpa [same.pos, same.size] using order
  · simpa [same.size] using room
  · cases point <;> simpa [Knows, same.pos, same.size, same.sentStart] using knows
  · have unchanged : rest ⟨processData data m, point, sent, accepted⟩ = rest ⟨m, point, sent, accepted⟩ := by
      cases point <;> simp [rest, same.held, same.sentStart]
    rw [unchanged]
    exact total
  · simpa [same.pos, same.size] using idle

/-- A frame that comes in time is what is left to send last. -/
theorem Inv.accepts {s : Board} (inv : Inv s) {data cmd : Byte} (some : forwarded data s.motor = some cmd)
    (inTime : InTime s (.bus data)) : Inv (s.next (.bus data)) := by
  obtain ⟨m, point, sent, accepted⟩ := s
  obtain ⟨wellFormed, order, room, knows, total, idle⟩ := inv
  have appended : Appended cmd m (processData data m) := processData_appended wellFormed some
  obtain ⟨space, notPos, notSize⟩ := inTime (by simp [some])
  have kept : (Board.next ⟨m, point, sent, accepted⟩ (.bus data)) = ⟨processData data m, point, sent, accepted ++ [cmd]⟩ := by
    simp only at some
    simp [Board.next, some]
  rw [kept]
  simp only at order room total space notPos notSize
  have bigger : m.uartBufPos ≤ m.uartBufSize + 4 := by omega
  refine ⟨processData_wellFormed data wellFormed, ?_, ?_, ?_, ?_, by simp⟩
  · simpa [appended.pos, appended.size] using bigger
  · simpa [appended.size] using space
  · have later (more : m.uartBufPos < m.uartBufSize) : (processData data m).uartBufPos < (processData data m).uartBufSize := by
      rw [appended.pos, appended.size]
      omega
    cases point with
    | check => simpa [Knows, appended.sentStart] using knows
    | started => exact ⟨later knows.1, by simpa [appended.sentStart] using knows.2⟩
    | sync left => exact later knows
    | take => exact ⟨later knows.1, appended.sentStart.trans knows.2⟩
    | write b => exact appended.sentStart.trans knows
    | compare => exact appended.sentStart.trans knows
    | clearPos => exact absurd rfl notPos
    | clearSize => exact absurd rfl notSize
  · have longer : rest ⟨processData data m, point, sent, accepted ++ [cmd]⟩ = rest ⟨m, point, sent, accepted⟩ ++ packet cmd := by
      cases point <;> simp [rest, appended.held order, appended.sentStart] at notPos notSize ⊢
    rw [longer]
    simp only [List.flatMap_append, List.flatMap_singleton, ← List.append_assoc, total]

theorem Inv.next {s : Board} (inv : Inv s) (a : Act) (inTime : InTime s a) : Inv (s.next a) := by
  cases a with
  | main full => exact inv.main full
  | bus data =>
    cases taken : forwarded data s.motor with
    | none => exact inv.quiet taken
    | some cmd => exact inv.accepts taken inTime

/-! ### Everything is sent in the end -/

/-- A bound on the steps of the main loop to the next byte, and 16 for each byte. -/
def stepsLeft (s : Board) : ℕ :=
  16 * (rest s).length + match s.point with
    | .check => 7
    | .started => 6
    | .sync _ => 5
    | .take => 4
    | .write _ => 3
    | .compare => 10
    | .clearPos => 9
    | .clearSize => 8

theorem stream_of_ne {cmds : List Byte} (some : cmds ≠ []) : stream cmds = syncBytes ++ cmds.flatMap packet := if_neg some

theorem main_accepted (s : Board) (full : Bool) : (s.main full).accepted = s.accepted := by
  unfold Board.main
  split <;> try rfl
  all_goals split <;> rfl

/-- With space in the UART the main loop comes nearer to its next byte. -/
theorem Inv.progress {s : Board} (inv : Inv s) (some : s.accepted ≠ []) (more : rest s ≠ []) :
    stepsLeft (s.main false) < stepsLeft s := by
  obtain ⟨m, point, sent, accepted⟩ := s
  obtain ⟨-, order, -, knows, total, -⟩ := inv
  simp only at order total some
  cases point with
  | check =>
    have left : held m ≠ [] := by
      cases begun : m.sentStart with
      | true => simpa [rest, begun] using more
      | false =>
        -- Nothing is sent yet, so the frame of the first command is there.
        have fresh : sent = [] := knows begun
        have whole : held m = accepted.flatMap packet := by simpa [rest, begun, fresh] using total
        rw [whole]
        obtain ⟨cmd, others, rfl⟩ := List.exists_cons_of_ne_nil some
        simp [packet]
    have ready := lt_of_held order left
    simp [stepsLeft, rest, Board.main, ready]
  | started =>
    cases begun : m.sentStart <;> simp [stepsLeft, rest, Board.main, begun]
  | sync left =>
    cases left with
    | nil =>
      have same : held { m with sentStart := true } = held m := rfl
      simp [stepsLeft, rest, Board.main, same]
    | cons b left => simp [stepsLeft, rest, Board.main]
  | take =>
    have shorter := congrArg List.length (held_cons (show m.uartBufPos < m.uartBufSize from knows.1))
    simp only [List.length_cons] at shorter
    simp [stepsLeft, rest, Board.main]
    omega
  | write b => simp [stepsLeft, rest, Board.main]; omega
  | compare =>
    have begun : m.sentStart = true := knows
    have ready := lt_of_held order more
    simp [stepsLeft, rest, Board.main, begun, Nat.ne_of_lt ready]
  | clearPos => exact absurd rfl more
  | clearSize => exact absurd rfl more

theorem Inv.drains {s : Board} (inv : Inv s) :
    ∃ n, (after Board.next s (List.replicate n (.main false))).sent = stream s.accepted := by
  by_cases none : s.accepted = []
  · exact ⟨0, by rw [none]; exact (inv.idle none).2.1⟩
  · -- By induction on the steps that are left, with the same commands throughout.
    induction left : stepsLeft s using Nat.strongRecOn generalizing s with
    | ind k ih =>
      by_cases done : rest s = []
      · have total := inv.total
        rw [done, List.append_nil] at total
        exact ⟨0, total.trans (stream_of_ne none).symm⟩
      · have same := main_accepted s false
        obtain ⟨n, sent⟩ := ih _ (left ▸ inv.progress none done) (inv.main false) (same ▸ none) rfl
        exact ⟨n + 1, sent.trans (by rw [same])⟩

theorem Inv.exact {s : Board} (inv : Inv s) : Exact s where
  sent := by
    by_cases none : s.accepted = []
    · rw [(inv.idle none).2.1]
      exact List.nil_prefix
    · rw [stream_of_ne none, ← inv.total]
      exact List.prefix_append _ _
  drains := inv.drains
  read at' := by
    have knows := inv.knows
    rw [Knows, at'] at knows
    exact Nat.lt_of_lt_of_le knows.1 inv.room
  filled := inv.room

/-! ### Every run -/

/-- In every run in which commands come in time, whatever the order of the bytes of the bus and
    the steps of the main loop, the commands are passed on exactly once. -/
theorem forwards_once (acts : List Act) (inTime : Each Board.next InTime start acts) : Exact (after Board.next start acts) :=
  Inv.exact (after_invariant (fun _ a inv ready => inv.next a ready) inv_start inTime)

instance (s : Board) : ∀ a, Decidable (InTime s a)
  | .main _ => isTrue trivial
  | .bus data => inferInstanceAs (Decidable (forwarded data s.motor ≠ none →
      s.motor.uartBufSize + 4 ≤ bufLength ∧ s.point ≠ .clearPos ∧ s.point ≠ .clearSize))

/-- The main loop takes `n` steps, with space in the UART. -/
def loops (n : ℕ) : List Act := List.replicate n (.main false)

theorem forwards_once_two : Exact (after Board.next start
    (.bus busCmdVoidPneu :: loops 7 ++ [.bus busCmdOffPneu, .main true] ++ loops 40)) :=
  forwards_once _ (by decide)

/-- A command that comes when the main loop has found its buffer empty is lost, and the next
    one is sent in its place. Seventeen commands do not fit in the buffer. -/
theorem not_forwards_once :
    ¬ Exact (after Board.next start
      (.bus busCmdVoidPneu :: loops 25 ++ .bus busCmdOffPneu :: loops 2 ++ .bus busCmdFireTorp1 :: loops 25)) ∧
    ¬ Exact (after Board.next start (List.replicate 17 (.bus busCmdVoidPneu))) := by
  refine ⟨fun exact => absurd exact.sent ?_, fun exact => absurd exact.filled ?_⟩
  · decide
  · decide

end Tortuga.Forwarding
