import Mathlib.Data.List.Basic
import Mathlib.Tactic.Cases
import Tortuga.BusCodes

/-!
The motor board (`motor.c`): the parser that takes the bytes the master writes on the
bus (`processData`), the speeds it keeps and the buffer of commands that its main loop
passes on to the pneumatics board.
-/
namespace Tortuga.MotorBoard
open Tortuga.BusCodes
set_option linter.unusedSimpArgs false

/-- `STATE_…`: what the next byte of the bus is read as. -/
inductive BusState where
  | topLevel
  | setMotSpeeds
  | setMotN
  | setDerpy
  deriving DecidableEq, Repr

/-- The variables of the board that the bus and the main loop share. -/
structure Motor where
  motorSpeed : ℕ → Byte
  uartBuf : ℕ → Byte
  sentStart : Bool
  uartBufSize : ℕ
  uartBufPos : ℕ
  busState : BusState
  nParam : ℕ
  rxBuf : ℕ → Byte
  txBuf : ℕ → Byte
  txPtr : ℕ
  /-- `LAT_WAH_INH`: the magnet power is on. -/
  wahInh : Bool

/-- The board when `main` turns on the interrupt of the bus. -/
def initial : Motor where
  motorSpeed _ := 0x80#8
  uartBuf _ := 0#8
  sentStart := false
  uartBufSize := 0
  uartBufPos := 0
  busState := .topLevel
  nParam := 0
  rxBuf _ := 0#8
  txBuf _ := 0#8
  txPtr := 0
  wahInh := false

/-- `kill_motors`: all seven speeds to neutral. -/
def killMotors (s : Motor) : Motor :=
  { s with motorSpeed := fun i => if i < 7 then 0x80#8 else s.motorSpeed i }

/-- A speed outside `[0x19, 0xE6]`. -/
def BadSpeed (b : Byte) : Prop := b > 0xE6#8 ∨ b < 0x19#8

instance (b : Byte) : Decidable (BadSpeed b) := inferInstanceAs (Decidable (_ ∨ _))

/-- `forwardCmd`: a four-byte frame for the pneumatics board, at the end of the buffer. -/
def forwardCmd (cmd : Byte) (s : Motor) : Motor :=
  let buf := Function.update s.uartBuf s.uartBufSize 0x42#8
  let buf := Function.update buf (s.uartBufSize + 1) 0x43#8
  let buf := Function.update buf (s.uartBufSize + 2) cmd
  let buf := Function.update buf (s.uartBufSize + 3)
    (buf s.uartBufSize + buf (s.uartBufSize + 1) + buf (s.uartBufSize + 2))
  { s with uartBuf := buf, uartBufSize := s.uartBufSize + 4 }

/-- The commands that the board passes on to the pneumatics board. -/
def forwardedCmds : List Byte :=
  [busCmdVoidPneu, busCmdOffPneu, busCmdFireTorp1, busCmdFireTorp2, busCmdVoidTorp1, busCmdVoidTorp2,
    busCmdArmTorp1, busCmdArmTorp2, busCmdExtGrabber, busCmdRetGrabber, busCmdVoidGrabber, busCmdMarker1,
    busCmdMarker2]

/-- "MTR PNU", as `sprintf` stores it with its terminator. -/
def idText : List Byte := [0x4D#8, 0x54#8, 0x52#8, 0x20#8, 0x50#8, 0x4E#8, 0x55#8, 0x00#8]

/-- A byte at the top level: `case STATE_TOP_LEVEL` of `processData`. Other bytes do nothing. -/
def topLevelCmd (data : Byte) (s : Motor) : Motor :=
  if data = busCmdId then
    { s with txBuf := fun i => if i = 0 then 7#8 else (idText[i - 1]?).getD (s.txBuf i) }
  else if data = busCmdSetMotSpeeds then { s with nParam := 0, busState := .setMotSpeeds }
  else if data = busCmdKillMotors then killMotors s
  else if data = busCmdSetMotN then { s with nParam := 0, busState := .setMotN }
  else if data = busCmdMagPwrOn then { s with wahInh := true }
  else if data = busCmdMagPwrOff then { s with wahInh := false }
  else if data ∈ forwardedCmds then forwardCmd data s
  else if data = busCmdSetDerpy then { s with nParam := 0, busState := .setDerpy }
  else if data = busCmdStopDerpy then { s with motorSpeed := Function.update s.motorSpeed 6 0x80#8 }
  else s

/-- The loop that sets the speeds `rxBuf[i]`, stopping all motors at the first bad one. -/
def takeSpeeds : List ℕ → Motor → Motor
  | [], s => s
  | i :: rest, s =>
    if BadSpeed (s.rxBuf i) then killMotors s
    else takeSpeeds rest { s with motorSpeed := Function.update s.motorSpeed i (s.rxBuf i) }

/-- `rxBuf[nParam++]= data`. -/
def saveParam (data : Byte) (s : Motor) : Motor :=
  { s with rxBuf := Function.update s.rxBuf s.nParam data, nParam := s.nParam + 1 }

/-- `case STATE_SET_MOT_SPEEDS`. -/
def setMotSpeedsParam (data : Byte) (s : Motor) : Motor :=
  let s := saveParam data s
  if 6 ≤ s.nParam then { takeSpeeds (List.range 6) s with busState := .topLevel } else s

/-- `case STATE_SET_MOT_N`. -/
def setMotNParam (data : Byte) (s : Motor) : Motor :=
  let s := saveParam data s
  if 2 ≤ s.nParam then
    if BadSpeed (s.rxBuf 1) ∨ s.rxBuf 0 > 5#8 then { killMotors s with busState := .topLevel }
    else { s with motorSpeed := Function.update s.motorSpeed (s.rxBuf 0).toNat (s.rxBuf 1), busState := .topLevel }
  else s

/-- `case STATE_SET_DERPY`. -/
def setDerpyParam (data : Byte) (s : Motor) : Motor :=
  if BadSpeed data then { killMotors s with busState := .topLevel }
  else { s with motorSpeed := Function.update s.motorSpeed 6 data, busState := .topLevel }

/-- `processData`: a byte from the master. -/
def processData (data : Byte) (s : Motor) : Motor :=
  let s := { s with txPtr := 0 }
  match s.busState with
  | .topLevel => topLevelCmd data s
  | .setMotSpeeds => setMotSpeedsParam data s
  | .setMotN => setMotNParam data s
  | .setDerpy => setDerpyParam data s

/-! ### What a byte can do -/

section
variable {s : Motor} (data : Byte)

theorem processData_topLevel (state : s.busState = .topLevel) :
    processData data s = topLevelCmd data { s with txPtr := 0 } := by
  rw [processData, state]

theorem processData_setMotSpeeds (state : s.busState = .setMotSpeeds) :
    processData data s = setMotSpeedsParam data { s with txPtr := 0 } := by
  rw [processData, state]

theorem processData_setMotN (state : s.busState = .setMotN) :
    processData data s = setMotNParam data { s with txPtr := 0 } := by
  rw [processData, state]

theorem processData_setDerpy (state : s.busState = .setDerpy) :
    processData data s = setDerpyParam data { s with txPtr := 0 } := by
  rw [processData, state]

end

/-- The parameter bytes that the parser still takes before it is at the top level again. -/
def pending (s : Motor) : ℕ :=
  match s.busState with
  | .topLevel => 0
  | .setMotSpeeds => 6 - s.nParam
  | .setMotN => 2 - s.nParam
  | .setDerpy => 1

/-- The parameters of a command of the top level. -/
def paramsOf (cmd : Byte) : ℕ :=
  if cmd = busCmdSetMotSpeeds then 6
  else if cmd = busCmdSetMotN then 2
  else if cmd = busCmdSetDerpy then 1
  else 0

/-- The counter of parameters is below the length of its command. -/
structure WellFormed (s : Motor) : Prop where
  speeds : s.busState = .setMotSpeeds → s.nParam < 6
  one : s.busState = .setMotN → s.nParam < 2

theorem initial_wellFormed : WellFormed initial where
  speeds := by simp [initial]
  one := by simp [initial]

/-- The parser is at the top level exactly when it waits for no parameter. -/
theorem pending_eq_zero {s : Motor} (wf : WellFormed s) : pending s = 0 ↔ s.busState = .topLevel := by
  obtain ⟨speeds, one⟩ := wf
  cases state : s.busState with
  | topLevel => simp [pending, state]
  | setMotSpeeds => have := speeds state; simp [pending, state]; omega
  | setMotN => have := one state; simp [pending, state]; omega
  | setDerpy => simp [pending, state]

/-- Setting speeds changes nothing but the speeds. -/
theorem takeSpeeds_frame (is : List ℕ) (s : Motor) :
    takeSpeeds is s = { s with motorSpeed := (takeSpeeds is s).motorSpeed } := by
  induction is generalizing s with
  | nil => rfl
  | cons i rest ih =>
    rw [takeSpeeds]
    split
    · rfl
    · rw [ih]

@[simp] theorem paramsOf_setMotSpeeds : paramsOf busCmdSetMotSpeeds = 6 := rfl
@[simp] theorem paramsOf_setMotN : paramsOf busCmdSetMotN = 2 := rfl
@[simp] theorem paramsOf_setDerpy : paramsOf busCmdSetDerpy = 1 := rfl
theorem paramsOf_forwarded : ∀ cmd ∈ forwardedCmds, paramsOf cmd = 0 := by decide +kernel

/-- What a byte at the top level can do. -/
theorem topLevelCmd_cases {data : Byte} {s : Motor} {P : Motor → Prop}
    (identify : data = busCmdId → ∀ txBuf, P { s with txBuf := txBuf })
    (speeds : data = busCmdSetMotSpeeds → P { s with nParam := 0, busState := .setMotSpeeds })
    (kill : data = busCmdKillMotors → P (killMotors s))
    (one : data = busCmdSetMotN → P { s with nParam := 0, busState := .setMotN })
    (magnet : data = busCmdMagPwrOn ∨ data = busCmdMagPwrOff → ∀ wahInh, P { s with wahInh := wahInh })
    (forward : data ∈ forwardedCmds → P (forwardCmd data s))
    (derpy : data = busCmdSetDerpy → P { s with nParam := 0, busState := .setDerpy })
    (stop : data = busCmdStopDerpy → P { s with motorSpeed := Function.update s.motorSpeed 6 0x80#8 })
    (other : paramsOf data = 0 → P s) : P (topLevelCmd data s) := by
  rw [topLevelCmd]
  by_cases isId : data = busCmdId
  · rw [if_pos isId]
    exact identify isId _
  by_cases isSpeeds : data = busCmdSetMotSpeeds
  · rw [if_neg isId, if_pos isSpeeds]
    exact speeds isSpeeds
  by_cases isKill : data = busCmdKillMotors
  · rw [if_neg isId, if_neg isSpeeds, if_pos isKill]
    exact kill isKill
  by_cases isN : data = busCmdSetMotN
  · rw [if_neg isId, if_neg isSpeeds, if_neg isKill, if_pos isN]
    exact one isN
  rw [if_neg isId, if_neg isSpeeds, if_neg isKill, if_neg isN]
  by_cases isOn : data = busCmdMagPwrOn
  · rw [if_pos isOn]
    exact magnet (.inl isOn) true
  by_cases isOff : data = busCmdMagPwrOff
  · rw [if_neg isOn, if_pos isOff]
    exact magnet (.inr isOff) false
  by_cases isForwarded : data ∈ forwardedCmds
  · rw [if_neg isOn, if_neg isOff, if_pos isForwarded]
    exact forward isForwarded
  rw [if_neg isOn, if_neg isOff, if_neg isForwarded]
  by_cases isDerpy : data = busCmdSetDerpy
  · rw [if_pos isDerpy]
    exact derpy isDerpy
  by_cases isStop : data = busCmdStopDerpy
  · rw [if_neg isDerpy, if_pos isStop]
    exact stop isStop
  · rw [if_neg isDerpy, if_neg isStop]
    exact other (by rw [paramsOf, if_neg isSpeeds, if_neg isN, if_neg isDerpy])

theorem topLevelCmd_state (data : Byte) (s : Motor) (top : s.busState = .topLevel) :
    WellFormed (topLevelCmd data s) ∧ pending (topLevelCmd data s) = paramsOf data := by
  have plain (t : Motor) (state : t.busState = .topLevel) (none : paramsOf data = 0) :
      WellFormed t ∧ pending t = paramsOf data :=
    ⟨⟨by simp [state], by simp [state]⟩, by simp [pending, state, none]⟩
  refine topLevelCmd_cases (P := fun t => WellFormed t ∧ pending t = paramsOf data) (fun isId txBuf => ?_)
    (fun isSpeeds => ?_) (fun isKill => ?_) (fun isN => ?_) (fun isMagnet wahInh => ?_) (fun isForwarded => ?_)
    (fun isDerpy => ?_) (fun isStop => ?_) (fun none => ?_)
  · exact plain _ top (by rw [isId]; rfl)
  · exact ⟨⟨by simp, by simp⟩, by simp [pending, isSpeeds]⟩
  · exact plain _ top (by rw [isKill]; rfl)
  · exact ⟨⟨by simp, by simp⟩, by simp [pending, isN]⟩
  · refine plain _ top ?_
    rcases isMagnet with on | off
    · rw [on]
      rfl
    · rw [off]
      rfl
  · exact plain _ top (paramsOf_forwarded data isForwarded)
  · exact ⟨⟨by simp, by simp⟩, by simp [pending, isDerpy]⟩
  · exact plain _ top (by rw [isStop]; rfl)
  · exact plain _ top none

/-- At the top level a byte is a command: the parser then waits for its parameters. -/
theorem processData_top {s : Motor} (data : Byte) (top : s.busState = .topLevel) :
    WellFormed (processData data s) ∧ pending (processData data s) = paramsOf data := by
  rw [processData_topLevel data top]
  exact topLevelCmd_state data _ top

/-- Elsewhere a byte is a parameter, whatever it is, and nothing is passed on. -/
theorem processData_param {s : Motor} (data : Byte) (wf : WellFormed s) (inside : s.busState ≠ .topLevel) :
    WellFormed (processData data s) ∧ pending (processData data s) + 1 = pending s ∧
      (processData data s).uartBufSize = s.uartBufSize := by
  obtain ⟨speeds, one⟩ := wf
  cases state : s.busState with
  | topLevel => exact absurd state inside
  | setMotSpeeds =>
    have low := speeds state
    rw [processData_setMotSpeeds data state, setMotSpeedsParam, saveParam]
    split
    case isTrue last =>
      rw [takeSpeeds_frame]
      exact ⟨⟨by simp, by simp⟩, by simp [pending, state] at last ⊢; omega, rfl⟩
    case isFalse more =>
      simp only [Nat.not_le] at more
      exact ⟨⟨fun _ => more, by simp [state]⟩, by simp only [pending, state]; omega, rfl⟩
  | setMotN =>
    have low := one state
    rw [processData_setMotN data state, setMotNParam, saveParam]
    split
    case isTrue last =>
      have count : 2 - s.nParam = 1 := by simp at last; omega
      split
      · exact ⟨⟨by simp, by simp⟩, by simp [pending, state, count], rfl⟩
      · exact ⟨⟨by simp, by simp⟩, by simp [pending, state, count], rfl⟩
    case isFalse more =>
      simp only [Nat.not_le] at more
      exact ⟨⟨by simp [state], fun _ => more⟩, by simp only [pending, state]; omega, rfl⟩
  | setDerpy =>
    rw [processData_setDerpy data state, setDerpyParam]
    split
    · exact ⟨⟨by simp, by simp⟩, by simp [pending, state], rfl⟩
    · exact ⟨⟨by simp, by simp⟩, by simp [pending, state], rfl⟩

theorem processData_wellFormed {s : Motor} (data : Byte) (wf : WellFormed s) : WellFormed (processData data s) := by
  by_cases top : s.busState = .topLevel
  · exact (processData_top data top).1
  · exact (processData_param data wf top).1

/-- The command that a byte makes the board pass on: the third byte of the frame by
    which `uartBuf` grows. -/
def forwarded (data : Byte) (s : Motor) : Option Byte :=
  if (processData data s).uartBufSize = s.uartBufSize then none
  else some ((processData data s).uartBuf (s.uartBufSize + 2))

theorem forwardCmd_third (cmd : Byte) (s : Motor) : (forwardCmd cmd s).uartBuf (s.uartBufSize + 2) = cmd := by
  simp [forwardCmd, Function.update]

theorem not_forwarded : ∀ cmd ∈ forwardedCmds, cmd ≠ busCmdId ∧ cmd ≠ busCmdSetMotSpeeds ∧ cmd ≠ busCmdKillMotors ∧
    cmd ≠ busCmdSetMotN ∧ cmd ≠ busCmdMagPwrOn ∧ cmd ≠ busCmdMagPwrOff := by decide +kernel

theorem topLevelCmd_forwards {data : Byte} (member : data ∈ forwardedCmds) (s : Motor) :
    topLevelCmd data s = forwardCmd data s := by
  obtain ⟨h₁, h₂, h₃, h₄, h₅, h₆⟩ := not_forwarded data member
  simp only [topLevelCmd, h₁, h₂, h₃, h₄, h₅, h₆, member, ↓reduceIte]

theorem topLevelCmd_size {data : Byte} (other : data ∉ forwardedCmds) (s : Motor) :
    (topLevelCmd data s).uartBufSize = s.uartBufSize :=
  topLevelCmd_cases (P := fun t => t.uartBufSize = s.uartBufSize) (fun _ _ => rfl) (fun _ => rfl) (fun _ => rfl)
    (fun _ => rfl) (fun _ _ => rfl) (fun member => absurd member other) (fun _ => rfl) (fun _ => rfl) (fun _ => rfl)

/-- Only a byte read at the top level is passed on, and it is passed on as it is. -/
theorem forwarded_eq {s : Motor} (data : Byte) (wf : WellFormed s) :
    forwarded data s = if s.busState = .topLevel ∧ data ∈ forwardedCmds then some data else none := by
  by_cases top : s.busState = .topLevel
  · by_cases member : data ∈ forwardedCmds
    · have third := forwardCmd_third data { s with txPtr := 0, busState := .topLevel }
      simp only [forwarded, processData, top, topLevelCmd_forwards member, member, and_self, ↓reduceIte]
      simp only at third
      rw [third]
      simp [forwardCmd]
    · simp [forwarded, processData, top, topLevelCmd_size member, member]
  · simp [forwarded, (processData_param data wf top).2.2, top]

/-- All seven speeds are neutral. -/
def Neutral (s : Motor) : Prop := ∀ i < 7, s.motorSpeed i = 0x80#8

instance (s : Motor) : Decidable (Neutral s) := inferInstanceAs (Decidable (∀ i < 7, _))

theorem killMotors_neutral (s : Motor) : Neutral (killMotors s) := fun i low => by simp [killMotors, low]

theorem pending_processData {s : Motor} (data : Byte) (wf : WellFormed s) :
    pending (processData data s) = if pending s = 0 then paramsOf data else pending s - 1 := by
  by_cases top : s.busState = .topLevel
  · rw [(processData_top data top).2, if_pos ((pending_eq_zero wf).mpr top)]
  · have counted := (processData_param data wf top).2.1
    have inside : pending s ≠ 0 := fun zero => top ((pending_eq_zero wf).mp zero)
    rw [if_neg inside]
    omega

/-! ### The kill command -/

/-- A bad speed stops all motors. -/
theorem takeSpeeds_bad {is : List ℕ} {s : Motor} (bad : ∃ i ∈ is, BadSpeed (s.rxBuf i)) : Neutral (takeSpeeds is s) := by
  induction is generalizing s with
  | nil => simp at bad
  | cons i rest ih =>
    rw [takeSpeeds]
    split
    case isTrue => exact killMotors_neutral s
    case isFalse good =>
      obtain ⟨j, member, bad⟩ := bad
      rcases List.mem_cons.mp member with rfl | later
      · exact absurd bad good
      · exact ih ⟨j, later, bad⟩

/-- Good speeds are all set. -/
theorem takeSpeeds_good {is : List ℕ} {s : Motor} (good : ∀ i ∈ is, ¬ BadSpeed (s.rxBuf i)) {i : ℕ} (member : i ∈ is) :
    (takeSpeeds is s).motorSpeed i = s.rxBuf i := by
  have others : ∀ (is : List ℕ) (s : Motor), (∀ i ∈ is, ¬ BadSpeed (s.rxBuf i)) → s.motorSpeed i = s.rxBuf i →
      (takeSpeeds is s).motorSpeed i = s.rxBuf i := by
    intro is
    induction is with
    | nil => exact fun _ _ set => set
    | cons j rest ih =>
      intro s good set
      rw [takeSpeeds, if_neg (good j (.head _))]
      refine ih _ (fun k later => good k (.tail _ later)) ?_
      by_cases same : i = j
      · simp [same]
      · simp [same, set]
  induction is generalizing s with
  | nil => simp at member
  | cons j rest ih =>
    rw [takeSpeeds, if_neg (good j (.head _))]
    rcases List.mem_cons.mp member with rfl | later
    · exact others rest _ (fun k later => good k (.tail _ later)) (by simp)
    · exact ih (fun k later => good k (.tail _ later)) later

/-- The parser reads the next byte as a command; or the byte is a parameter and the
    motors end up stopped nevertheless, because they were and stay so or because an
    earlier parameter of the frame is bad. -/
def Heeds (s : Motor) : Prop :=
  match s.busState with
  | .topLevel => True
  | .setMotSpeeds => if s.nParam < 5 then Neutral s else ∃ i < 5, BadSpeed (s.rxBuf i)
  | .setMotN => if s.nParam = 0 then Neutral s else s.rxBuf 0 > 5#8
  | .setDerpy => False

instance (s : Motor) : Decidable (Heeds s) := by
  unfold Heeds
  split <;> infer_instance

theorem kill_fine : ¬ BadSpeed busCmdKillMotors := by decide
theorem kill_ne_neutral : busCmdKillMotors ≠ 0x80#8 := by decide

/-- The kill byte as a parameter of `BUS_CMD_SET_MOT_SPEEDS`. -/
theorem setMotSpeedsParam_kill {s : Motor} (low : s.nParam < 6) : Neutral (setMotSpeedsParam busCmdKillMotors s) ↔
    if s.nParam < 5 then Neutral s else ∃ i < 5, BadSpeed (s.rxBuf i) := by
  by_cases more : s.nParam < 5
  · rw [if_pos more, setMotSpeedsParam, if_neg (by simp [saveParam]; omega)]
    rfl
  · have count : s.nParam = 5 := by omega
    have saved : ∀ i, (saveParam busCmdKillMotors s).rxBuf i = if i = 5 then busCmdKillMotors else s.rxBuf i := by
      intro i
      simp [saveParam, count, Function.update_apply]
    rw [if_neg more, setMotSpeedsParam, if_pos (by simp [saveParam]; omega)]
    constructor
    · intro neutral
      by_contra good
      have fine : ∀ i ∈ List.range 6, ¬ BadSpeed ((saveParam busCmdKillMotors s).rxBuf i) := by
        intro i member bad
        rw [saved] at bad
        split at bad
        case isTrue => exact kill_fine bad
        case isFalse other => exact good ⟨i, by simp at member; omega, bad⟩
      have set := takeSpeeds_good fine (List.mem_range.mpr (by decide : 5 < 6))
      have stopped : (takeSpeeds (List.range 6) (saveParam busCmdKillMotors s)).motorSpeed 5 = 0x80#8 :=
        neutral 5 (by decide)
      rw [set, saved, if_pos rfl] at stopped
      exact kill_ne_neutral stopped
    · rintro ⟨i, below, bad⟩
      have bad' : BadSpeed ((saveParam busCmdKillMotors s).rxBuf i) := by rwa [saved, if_neg (by omega)]
      exact takeSpeeds_bad ⟨i, List.mem_range.mpr (by omega), bad'⟩

/-- The kill byte as a parameter of `BUS_CMD_SET_MOT_N`. -/
theorem setMotNParam_kill {s : Motor} (low : s.nParam < 2) : Neutral (setMotNParam busCmdKillMotors s) ↔
    if s.nParam = 0 then Neutral s else s.rxBuf 0 > 5#8 := by
  by_cases first : s.nParam = 0
  · rw [if_pos first, setMotNParam, if_neg (by simp [saveParam]; omega)]
    rfl
  · have count : s.nParam = 1 := by omega
    have one : (saveParam busCmdKillMotors s).rxBuf 1 = busCmdKillMotors := by simp [saveParam, count]
    have zero : (saveParam busCmdKillMotors s).rxBuf 0 = s.rxBuf 0 := by simp [saveParam, count]
    rw [if_neg first, setMotNParam, if_pos (by simp [saveParam]; omega), one, zero]
    by_cases outside : s.rxBuf 0 > 5#8
    · rw [if_pos (.inr outside)]
      exact iff_of_true (killMotors_neutral _) outside
    · rw [if_neg (not_or.mpr ⟨kill_fine, outside⟩)]
      refine iff_of_false (fun neutral => ?_) outside
      have below : (s.rxBuf 0).toNat ≤ 5 := by simpa [BitVec.lt_def] using outside
      have set := neutral (s.rxBuf 0).toNat (by omega)
      exact kill_ne_neutral (by simpa using set)

/-- The kill byte as the parameter of `BUS_CMD_SET_DERPY`. -/
theorem setDerpyParam_kill (s : Motor) : ¬ Neutral (setDerpyParam busCmdKillMotors s) := by
  rw [setDerpyParam, if_neg kill_fine]
  intro neutral
  have set := neutral 6 (by decide)
  exact kill_ne_neutral (by simpa using set)

/-- What `BUS_CMD_KILL_MOTORS` does: it stops all motors exactly when the parser heeds it. -/
theorem killed_iff {s : Motor} (wf : WellFormed s) : Neutral (processData busCmdKillMotors s) ↔ Heeds s := by
  obtain ⟨speeds, one⟩ := wf
  cases state : s.busState with
  | topLevel =>
    simp only [Heeds, state, iff_true, processData]
    exact killMotors_neutral _
  | setMotSpeeds =>
    simp only [Heeds, state, processData]
    exact setMotSpeedsParam_kill (speeds state)
  | setMotN =>
    simp only [Heeds, state, processData]
    exact setMotNParam_kill (one state)
  | setDerpy =>
    simp only [Heeds, state, processData, iff_false]
    exact setDerpyParam_kill _

end Tortuga.MotorBoard
