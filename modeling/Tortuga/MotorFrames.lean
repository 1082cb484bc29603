import Tortuga.MotorBoard
import Tortuga.Machines

/-!
The speeds of the motor board (`motor.c`) over every sequence of bus bytes: they stay good, and a
frame of six speeds is taken as a whole or not at all.
-/
namespace Tortuga.MotorFrames
open Tortuga.BusCodes Tortuga.MotorBoard Tortuga.Machines
set_option linter.unusedSimpArgs false

/-- `BUF_SIZE`, the length of `rxBuf`. -/
abbrev bufSize : ℕ := 256

/-- The board after a byte of the bus. -/
def next (s : Motor) (data : Byte) : Motor := processData data s

/-! ### Ranges -/

/-- Every speed is good, and the counter is in the range of its frame, so that `rxBuf[nParam++]`
    is inside the buffer. -/
structure InRange (s : Motor) : Prop where
  wellFormed : WellFormed s
  speeds : ∀ i < 7, ¬ BadSpeed (s.motorSpeed i)
  nParam : s.nParam ≤ 6
  rxBuf : s.nParam < bufSize

section
variable {s : Motor} {data : Byte}

theorem neutral_good : ¬ BadSpeed 0x80#8 := by decide

theorem killMotors_good (s : Motor) : ∀ i < 7, ¬ BadSpeed ((killMotors s).motorSpeed i) := by
  intro i low
  rw [killMotors_neutral s i low]
  exact neutral_good

/-- A good speed in the place of another. -/
theorem update_good (good : ∀ i < 7, ¬ BadSpeed (s.motorSpeed i)) (j : ℕ) {speed : Byte} (fine : ¬ BadSpeed speed) :
    ∀ i < 7, ¬ BadSpeed (Function.update s.motorSpeed j speed i) := by
  intro i low
  by_cases same : i = j
  · rw [same, Function.update_self]
    exact fine
  · rw [Function.update_of_ne same]
    exact good i low

theorem takeSpeeds_ranges (is : List ℕ) (s : Motor) (good : ∀ i < 7, ¬ BadSpeed (s.motorSpeed i)) :
    ∀ i < 7, ¬ BadSpeed ((takeSpeeds is s).motorSpeed i) := by
  induction is generalizing s with
  | nil => exact good
  | cons j rest ih =>
    rw [takeSpeeds]
    split
    · exact killMotors_good s
    · next fine => exact ih _ (update_good good j fine)

theorem topLevelCmd_speeds (good : ∀ i < 7, ¬ BadSpeed (s.motorSpeed i)) :
    ∀ i < 7, ¬ BadSpeed ((topLevelCmd data s).motorSpeed i) :=
  topLevelCmd_cases (P := fun t => ∀ i < 7, ¬ BadSpeed (t.motorSpeed i)) (fun _ _ => good) (fun _ => good)
    (fun _ => killMotors_good s) (fun _ => good) (fun _ _ => good) (fun _ => good) (fun _ => good)
    (fun _ => update_good good 6 neutral_good) (fun _ => good)

theorem topLevelCmd_nParam (low : s.nParam ≤ 6) : (topLevelCmd data s).nParam ≤ 6 :=
  topLevelCmd_cases (P := fun t => t.nParam ≤ 6) (fun _ _ => low) (fun _ => Nat.zero_le 6) (fun _ => low)
    (fun _ => Nat.zero_le 6) (fun _ _ => low) (fun _ => low) (fun _ => Nat.zero_le 6) (fun _ => low) (fun _ => low)

theorem processData_speeds (good : ∀ i < 7, ¬ BadSpeed (s.motorSpeed i)) :
    ∀ i < 7, ¬ BadSpeed ((processData data s).motorSpeed i) := by
  cases state : s.busState with
  | topLevel =>
    rw [processData_topLevel data state]
    exact topLevelCmd_speeds good
  | setMotSpeeds =>
    rw [processData_setMotSpeeds data state, setMotSpeedsParam]
    split
    · exact takeSpeeds_ranges _ _ good
    · exact good
  | setMotN =>
    rw [processData_setMotN data state, setMotNParam]
    split
    · split
      · exact killMotors_good _
      · next fine => exact update_good good _ (fun bad => fine (.inl bad))
    · exact good
  | setDerpy =>
    rw [processData_setDerpy data state, setDerpyParam]
    split
    · exact killMotors_good _
    · next fine => exact update_good good 6 fine

theorem processData_nParam (data : Byte) (wf : WellFormed s) (low : s.nParam ≤ 6) : (processData data s).nParam ≤ 6 := by
  cases state : s.busState with
  | topLevel =>
    rw [processData_topLevel data state]
    exact topLevelCmd_nParam low
  | setMotSpeeds =>
    have less := wf.speeds state
    rw [processData_setMotSpeeds data state, setMotSpeedsParam]
    split
    · rw [takeSpeeds_frame]
      exact less
    · exact less
  | setMotN =>
    have less := wf.one state
    have saved : s.nParam + 1 ≤ 6 := Nat.le_trans less (by decide)
    rw [processData_setMotN data state, setMotNParam]
    split
    · split
      · exact saved
      · exact saved
    · exact saved
  | setDerpy =>
    rw [processData_setDerpy data state, setDerpyParam]
    split
    · exact low
    · exact low

theorem initial_inRange : InRange initial := ⟨initial_wellFormed, fun _ _ => neutral_good, by decide, by decide⟩

/-- A byte keeps the ranges. -/
theorem InRange.next (inRange : InRange s) (data : Byte) : InRange (next s data) := by
  have low := processData_nParam data inRange.wellFormed inRange.nParam
  exact ⟨processData_wellFormed data inRange.wellFormed, processData_speeds inRange.speeds, low,
    Nat.lt_of_le_of_lt low (by decide)⟩

theorem InRange.after (inRange : InRange s) (bytes : List Byte) : InRange (after MotorFrames.next s bytes) := by
  induction bytes generalizing s with
  | nil => exact inRange
  | cons data rest ih => exact ih (inRange.next data)

/-! ### Frames of six speeds -/

/-- The parser has taken these parameters of a frame of six speeds, and the motors run as before. -/
structure Taking (params : List Byte) (before : ℕ → Byte) (s : Motor) : Prop where
  state : s.busState = .setMotSpeeds
  nParam : s.nParam = params.length
  rxBuf : ∀ i (low : i < params.length), s.rxBuf i = params[i]
  speeds : s.motorSpeed = before

/-- A frame that is complete is taken as a whole: each thruster has its speed and the seventh
    motor the one it had, or all seven stop for a bad speed. -/
structure Taken (params : List Byte) (before : ℕ → Byte) (s : Motor) : Prop where
  state : s.busState = .topLevel
  good : (∀ p ∈ params, ¬ BadSpeed p) → (∀ i (low : i < params.length), s.motorSpeed i = params[i]) ∧ s.motorSpeed 6 = before 6
  bad : (∃ p ∈ params, BadSpeed p) → Neutral s

variable {params : List Byte} {before : ℕ → Byte}

theorem taking_command (top : s.busState = .topLevel) : Taking [] s.motorSpeed (MotorFrames.next s busCmdSetMotSpeeds) := by
  have command : MotorFrames.next s busCmdSetMotSpeeds = { s with txPtr := 0, nParam := 0, busState := .setMotSpeeds } :=
    processData_topLevel busCmdSetMotSpeeds top
  rw [command]
  exact ⟨rfl, rfl, fun i low => absurd low (Nat.not_lt_zero i), rfl⟩

theorem Taking.param (taking : Taking params before s) (data : Byte) :
    MotorFrames.next s data = setMotSpeedsParam data { s with txPtr := 0 } :=
  processData_setMotSpeeds data taking.state

/-- A parameter goes to its place. -/
theorem Taking.save (taking : Taking params before s) (data : Byte) :
    Taking (params ++ [data]) before (saveParam data { s with txPtr := 0 }) where
  state := taking.state
  nParam := by
    rw [List.length_append, ← taking.nParam]
    rfl
  rxBuf i low := by
    show Function.update s.rxBuf s.nParam data i = _
    rw [taking.nParam]
    by_cases old : i < params.length
    · rw [Function.update_of_ne (Nat.ne_of_lt old), List.getElem_append_left old]
      exact taking.rxBuf i old
    · have last : i = params.length := by
        rw [List.length_append, List.length_singleton] at low
        omega
      subst last
      rw [Function.update_self, List.getElem_concat_length rfl]
  speeds := taking.speeds

/-- Before the last parameter nothing else happens. -/
theorem Taking.more (taking : Taking params before s) (data : Byte) (more : params.length < 5) :
    Taking (params ++ [data]) before (MotorFrames.next s data) := by
  have saved := taking.save data
  have few : ¬ 6 ≤ (saveParam data { s with txPtr := 0 }).nParam := by
    rw [saved.nParam, List.length_append, List.length_singleton]
    omega
  rw [taking.param, setMotSpeedsParam, if_neg few]
  exact saved

/-- Setting the speeds of other motors. -/
theorem takeSpeeds_other {is : List ℕ} {s : Motor} (good : ∀ i ∈ is, ¬ BadSpeed (s.rxBuf i)) {j : ℕ} (other : j ∉ is) :
    (takeSpeeds is s).motorSpeed j = s.motorSpeed j := by
  induction is generalizing s with
  | nil => rfl
  | cons i rest ih =>
    obtain ⟨ne, later⟩ := not_or.mp (fun found => other (List.mem_cons.mpr found))
    rw [takeSpeeds, if_neg (good i (.head _))]
    have rest := ih (s := { s with motorSpeed := Function.update s.motorSpeed i (s.rxBuf i) })
      (fun k member => good k (.tail _ member)) later
    rw [rest]
    exact Function.update_of_ne ne (s.rxBuf i) s.motorSpeed

/-- The last parameter sets the speeds, or stops all motors. -/
theorem Taking.last (taking : Taking params before s) (data : Byte) (last : params.length = 5) :
    Taken (params ++ [data]) before (MotorFrames.next s data) := by
  have saved := taking.save data
  have length : (params ++ [data]).length = 6 := by rw [List.length_append, List.length_singleton, last]
  have all : 6 ≤ (saveParam data { s with txPtr := 0 }).nParam := by
    exact Nat.le_of_eq (saved.nParam.trans length).symm
  rw [taking.param, setMotSpeedsParam, if_pos all]
  generalize saveParam data { s with txPtr := 0 } = t at saved
  have inside (i : ℕ) (member : i ∈ List.range 6) : i < (params ++ [data]).length := by
    rw [length]
    exact List.mem_range.mp member
  refine ⟨rfl, fun good => ?_, fun bad => ?_⟩
  · have fine : ∀ i ∈ List.range 6, ¬ BadSpeed (t.rxBuf i) := by
      intro i member
      rw [saved.rxBuf i (inside i member)]
      exact good _ (List.getElem_mem _)
    refine ⟨fun i low => ?_, ?_⟩
    · show (takeSpeeds (List.range 6) t).motorSpeed i = _
      rw [takeSpeeds_good fine (List.mem_range.mpr (length ▸ low)), saved.rxBuf i low]
    · show (takeSpeeds (List.range 6) t).motorSpeed 6 = _
      rw [takeSpeeds_other fine (by decide), saved.speeds]
  · obtain ⟨p, member, bad⟩ := bad
    obtain ⟨i, low, found⟩ := List.getElem_of_mem member
    have bad' : BadSpeed (t.rxBuf i) := by rwa [saved.rxBuf i low, found]
    exact takeSpeeds_bad (s := t) ⟨i, List.mem_range.mpr (length ▸ low), bad'⟩

/-- A part of a frame, from the parameters that have come already. -/
theorem Taking.several (taking : Taking params before s) (rest : List Byte) (few : params.length + rest.length < 6) :
    Taking (params ++ rest) before (Machines.after MotorFrames.next s rest) := by
  induction rest generalizing params s with
  | nil =>
    rw [List.append_nil]
    exact taking
  | cons data rest ih =>
    rw [List.length_cons] at few
    have later := ih (taking.more data (by omega)) (by rw [List.length_append, List.length_singleton]; omega)
    rwa [List.append_assoc, List.singleton_append] at later

/-- What six parameters do from a parser at the top level, and what fewer of them do. -/
structure Atomic (s : Motor) : Prop where
  whole : ∀ params : List Byte, params.length = 6 →
    Taken params s.motorSpeed (Machines.after MotorFrames.next s (busCmdSetMotSpeeds :: params))
  part : ∀ params : List Byte, params.length < 6 →
    Taking params s.motorSpeed (Machines.after MotorFrames.next s (busCmdSetMotSpeeds :: params))

theorem atomic (top : s.busState = .topLevel) : Atomic s where
  whole params length := by
    rcases List.eq_nil_or_concat params with rfl | ⟨first, data, rfl⟩
    · cases length
    · rw [List.concat_eq_append] at length ⊢
      have five : first.length = 5 := by
        rw [List.length_append, List.length_singleton] at length
        omega
      have taking := (taking_command top).several first (by rw [five]; decide)
      have taken := taking.last data five
      rw [← List.cons_append, after_append]
      exact taken
  part params few := by
    have taking := (taking_command top).several params (by rw [List.length_nil, Nat.zero_add]; exact few)
    rw [List.nil_append] at taking
    exact taking

/-- After any bytes of the bus the speeds are good and the counter is in its range, and where a
    frame of six speeds begins, it is taken as a whole or not at all. -/
theorem frames_atomic (bytes : List Byte) :
    InRange (Machines.after MotorFrames.next initial bytes) ∧
      ((Machines.after MotorFrames.next initial bytes).busState = .topLevel →
        Atomic (Machines.after MotorFrames.next initial bytes)) :=
  ⟨initial_inRange.after bytes, atomic⟩

end

end Tortuga.MotorFrames
