import Mathlib.Tactic.Cases
import Tortuga.Distro

/-!
The overcurrent latch of the distribution board: a motor whose bit is set in `ovrReg` is
off, and stays off until an off command for it or the kill switch has cleared the bit.

The main loop sets a bit before `checkOvrReg` turns the motor off, and the bus may
interrupt it in between; `Point.unchecked` names the motors that such a call of
`checkOvrReg` has not come to.
-/
namespace Tortuga.Distro
open Tortuga.BusCodes
open Tortuga.Bitmaps (bit and_bit_ne_zero clear_getLsbD set_getLsbD)
open Tortuga.Machines (after after_append after_cons)
set_option linter.unusedSimpArgs false

/-! ### Bits of the register -/

section
variable {s t : Shared} (m k : Motor)

theorem mask_eq : m.mask = bit 8 m.index := by
  cases m <;> rfl

theorem index_lt : m.index < 8 := by
  cases m <;> decide

theorem index_injective {m k : Motor} (same : m.index = k.index) : m = k := by
  cases m <;> cases k <;> first | rfl | exact absurd same (by decide)

theorem mem_motors : m ∈ motors := by
  cases m <;> decide

theorem over_iff : s.over m ↔ s.ovrReg.getLsbD m.index = true := by
  rw [Shared.over, mask_eq, and_bit_ne_zero _ (index_lt m)]

theorem over_congr (same : t.ovrReg = s.ovrReg) : t.over m ↔ s.over m := by
  rw [over_iff, over_iff, same]

/-- `ovrReg &= ~mask` clears the bit of one motor. -/
theorem over_clear (cleared : t.ovrReg = s.ovrReg &&& ~~~m.mask) : t.over k ↔ s.over k ∧ k ≠ m := by
  rw [over_iff, over_iff, cleared, mask_eq, clear_getLsbD _ (index_lt m) (index_lt k)]
  have : k.index = m.index ↔ k = m := ⟨index_injective, congrArg _⟩
  simp [this]

end

/-! ### What a byte does -/

section
variable {s t : Shared}

theorem checkMotors_ovrReg (ms : List Motor) (s : Shared) : (checkMotors ms s).ovrReg = s.ovrReg := by
  induction ms generalizing s with
  | nil => rfl
  | cons m rest ih =>
    rw [checkMotors, ih]
    split <;> rfl

/-- `checkOvrReg` turns off the motors whose bit is set, and no others. -/
theorem checkMotors_motr (ms : List Motor) (s : Shared) (k : Motor) :
    (checkMotors ms s).motr k = true ↔ s.motr k = true ∧ ¬ (k ∈ ms ∧ s.over k) := by
  induction ms generalizing s with
  | nil => simp [checkMotors]
  | cons m rest ih =>
    rw [checkMotors, ih]
    by_cases marked : s.over m
    · have same : Shared.over { s with motr := Function.update s.motr m false } k ↔ s.over k := Iff.rfl
      rw [if_pos marked, same]
      by_cases here : k = m
      · simp [here, marked]
      · simp [here]
    · rw [if_neg marked]
      by_cases here : k = m
      · simp [here, marked]
      · simp [here]

theorem checkOvrReg_ovrReg (s : Shared) : (checkOvrReg s).ovrReg = s.ovrReg := checkMotors_ovrReg motors _

theorem checkOvrReg_motr (s : Shared) (k : Motor) :
    (checkOvrReg s).motr k = true ↔ s.motr k = true ∧ ¬ s.over k := by
  have same : (checkLed s).over k ↔ s.over k := Iff.rfl
  rw [checkOvrReg, checkMotors_motr, same]
  simp [mem_motors k, checkLed]

/-- The register and the outputs of the motors are as they were. -/
def SameMotors (s t : Shared) : Prop := t.ovrReg = s.ovrReg ∧ t.motr = s.motr

theorem SameMotors.ite {p : Prop} [Decidable p] {u : Shared} (yes : SameMotors s t) (no : SameMotors s u) :
    SameMotors s (if p then t else u) := by
  by_cases holds : p
  · rwa [if_pos holds]
  · rwa [if_neg holds]

theorem setBarMode_same (data : Byte) (s : Shared) : SameMotors s (setBarMode data s) := by
  rw [setBarMode]
  split <;> split <;> exact ⟨rfl, rfl⟩

theorem updateBars_same (s : Shared) : SameMotors s (updateBars s) := by
  unfold updateBars
  refine .ite ⟨rfl, rfl⟩ (.ite ⟨rfl, rfl⟩ ?_)
  exact .ite ⟨rfl, rfl⟩ (.ite ⟨rfl, rfl⟩ ⟨rfl, rfl⟩)

theorem otherCmd_same (data : Byte) (s : Shared) : SameMotors s (otherCmd data s) := by
  unfold otherCmd
  repeat' apply SameMotors.ite
  iterate 18 exact ⟨rfl, rfl⟩
  cases barCmds.find? fun c => decide (c.1 = data) with
  | none => exact ⟨rfl, rfl⟩
  | some c => exact ⟨rfl, rfl⟩

theorem paramByte_same (data : Byte) (s : Shared) : SameMotors s (paramByte data s) := by
  unfold paramByte
  cases s.busState with
  | writeCmd => dsimp only; split <;> exact ⟨rfl, rfl⟩
  | motrspeeds => dsimp only; split <;> exact ⟨rfl, rfl⟩
  | setBarmode => exact setBarMode_same data s
  | _ => exact ⟨rfl, rfl⟩

/-- A byte is an off command of a motor, an on command of a motor whose bit is clear, or
    it leaves the register and the motors alone. -/
theorem processData_cases (data : Byte) (s : Shared) :
    (∃ m, s.busState = .topLevel ∧ data = m.offCmd ∧ (processData data s).ovrReg = s.ovrReg &&& ~~~m.mask ∧
      ∀ k, (processData data s).motr k = true ↔ s.motr k = true ∧ k ≠ m ∧ ¬ (processData data s).over k) ∨
    (∃ m, s.busState = .topLevel ∧ data = m.onCmd ∧ ¬ s.over m ∧ (processData data s).ovrReg = s.ovrReg ∧
      (processData data s).motr = Function.update s.motr m true) ∨
    SameMotors s (processData data s) := by
  rw [processData]
  split
  case isFalse => exact .inr (.inr (paramByte_same data _))
  case isTrue top =>
    rw [topLevelCmd]
    split
    case h_1 m found =>
      have isOff : data = m.offCmd := by
        have same : m.offCmd = data := by simpa using List.find?_some found
        exact same.symm
      refine .inl ⟨m, top, isOff, checkOvrReg_ovrReg _, fun k => ?_⟩
      rw [motorOff, checkOvrReg_motr, over_congr k (checkOvrReg_ovrReg _)]
      simp only [Function.update_apply]
      by_cases here : k = m
      · simp [here]
      · simp [here]
    case h_2 =>
      split
      case h_1 m found =>
        have isOn : data = m.onCmd := by
          have same : m.onCmd = data := by simpa using List.find?_some found
          exact same.symm
        rw [motorOn]
        split
        · exact .inr (.inr ⟨rfl, rfl⟩)
        case isFalse clear => exact .inr (.inl ⟨m, top, isOn, clear, rfl, rfl⟩)
      case h_2 => exact .inr (.inr (otherCmd_same data _))

end

/-! ### What the main loop does -/

/-- The motors that a call of `checkOvrReg` by the main loop has still to test. -/
def Point.unchecked : Point → List Motor
  | .check _ => motors
  | .checking _ left => left
  | _ => []

/-- The event is an off command for the motor, or the write of `ovrReg &= 0x40` by a
    `checkKillSwitch` that has found the switch off. -/
def Clears (m : Motor) (b : Board) : Event → Prop
  | .write data => b.shared.busState = .topLevel ∧ data = m.offCmd
  | .main _ => ∃ read, b.point = .killWrite read
  | _ => False

/-- The latch. A motor whose bit is set is off, or `checkOvrReg` will come to it. What
    the main loop has read of the register to set a bit still has all the bits: the bus
    only clears some. -/
structure Latched (b : Board) : Prop where
  off : ∀ m, b.shared.over m → b.shared.motr m = true → m ∈ b.point.unchecked
  read : ∀ i read, b.point = .raiseWrite i read → ∀ m, b.shared.over m → read &&& m.mask ≠ 0#8

theorem initial_latched (memory : ℕ → Byte) (killSw : Bool) : Latched (initial memory killSw) where
  off _ _ on := by cases on
  read _ _ here := by cases here

section
variable {b c : Board}

/-- No motor gets a bit or is turned on. -/
theorem Latched.of_less (latched : Latched b) (point : c.point = b.point)
    (fewer : ∀ k, c.shared.over k → b.shared.over k) (on : ∀ k, c.shared.motr k = true → b.shared.motr k = true) :
    Latched c where
  off k set high := by
    rw [point]
    exact latched.off k (fewer k set) (on k high)
  read i read here k set := latched.read i read (point ▸ here) k (fewer k set)

theorem processData_latched (data : Byte) (latched : Latched b) : Latched (next b (.write data)) := by
  rcases processData_cases data b.shared with ⟨m, _, _, reg, off⟩ | ⟨m, _, _, clear, reg, outs⟩ | ⟨reg, outs⟩
  · exact latched.of_less rfl (fun k set => ((over_clear m k reg).mp set).1) (fun k high => ((off k).mp high).1)
  · refine ⟨fun k set high => ?_, fun i read here k set => latched.read i read here k ((over_congr k reg).mp set)⟩
    have was : b.shared.over k := (over_congr k reg).mp set
    have other : k ≠ m := by
      rintro rfl
      exact clear was
    refine latched.off k was ?_
    have here : (processData data b.shared).motr k = true := high
    rwa [outs, Function.update_of_ne other] at here
  · exact latched.of_less rfl (fun k set => (over_congr k reg).mp set) (fun k high => by rwa [← outs])

/-- A step that leaves the register and the motors alone, with no call of `checkOvrReg` going on. -/
theorem Latched.of_same (latched : Latched b) (same : SameMotors b.shared c.shared) (idle : b.point.unchecked = [])
    (fresh : ∀ i read, c.point = .raiseWrite i read → read = c.shared.ovrReg) : Latched c where
  off k set high := by
    have none := latched.off k ((over_congr k same.1).mp set) (by rw [← same.2]; exact high)
    rw [idle] at none
    cases none
  read i read here k set := by
    rw [fresh i read here]
    exact set

theorem following_fresh {i j : ℕ} {read : Byte} (here : Point.following i = .raiseWrite j read) : False := by
  unfold Point.following at here
  split at here
  · cases here
  split at here
  · cases here
  · cases here

/-- The mask of `checkKillSwitch` has no bit of a motor. -/
theorem killMask_clear (read : Byte) (m : Motor) : read &&& 0x40#8 &&& m.mask = 0#8 := by
  have none : 0x40#8 &&& m.mask = 0#8 := by cases m <;> rfl
  rw [BitVec.and_assoc, none, BitVec.and_zero]

theorem sweepMotor_same (i : ℕ) (b : Board) : SameMotors b.shared (sweepMotor i b).shared ∧
    ∀ j read, (sweepMotor i b).point ≠ .raiseWrite j read := by
  unfold sweepMotor
  split
  · split
    · exact ⟨⟨rfl, rfl⟩, fun j read here => by cases here⟩
    · exact ⟨⟨rfl, rfl⟩, fun j read here => following_fresh here⟩
  · exact ⟨⟨rfl, rfl⟩, fun j read here => following_fresh here⟩

theorem takeTemperature_same (rx : Byte) (b : Board) : SameMotors b.shared (takeTemperature rx b).shared := by
  unfold takeTemperature
  split
  · split <;> exact ⟨rfl, rfl⟩
  · exact ⟨rfl, rfl⟩

theorem measure_same (r : Readings) (b : Board) : SameMotors b.shared (mainAt r b .measure).shared ∧
    ∀ j read, (mainAt r b .measure).point ≠ .raiseWrite j read := by
  obtain ⟨reg, outs⟩ := takeTemperature_same r.rx { b with shared := updateBars b.shared }
  obtain ⟨reg', outs'⟩ := updateBars_same b.shared
  refine ⟨⟨reg.trans reg', outs.trans outs'⟩, fun j read here => ?_⟩
  dsimp only [mainAt] at here
  split at here <;> cases here

theorem mainStep_latched (r : Readings) (latched : Latched b) : Latched (mainStep r b) := by
  unfold mainStep
  -- The cases are the points of the loop.
  cases here : b.point with
  | startUp => exact latched.of_same ⟨rfl, rfl⟩ (by rw [here]; rfl) (fun i read there => by cases there)
  | loop =>
    refine latched.of_same ⟨rfl, rfl⟩ (by rw [here]; rfl) (fun i read there => ?_)
    dsimp only [mainAt] at there
    split at there <;> cases there
  | killing left =>
    cases left with
    | nil => exact latched.of_same ⟨rfl, rfl⟩ (by rw [here]; rfl) (fun i read there => by cases there)
    | cons m left =>
      refine ⟨fun k set high => ?_, fun i read there => by cases there⟩
      have on : b.shared.motr k = true := by
        by_cases same : k = m
        · simp [mainAt, same] at high
        · simpa [mainAt, same] using high
      have idle := latched.off k set on
      rw [here] at idle
      cases idle
  | killRead => exact latched.of_same ⟨rfl, rfl⟩ (by rw [here]; rfl) (fun i read there => by cases there)
  | killWrite read => exact ⟨fun m set => absurd (killMask_clear read m) set, fun i read there => by cases there⟩
  | measure =>
    obtain ⟨same, fresh⟩ := measure_same r b
    exact latched.of_same same (by rw [here]; rfl) (fun i read there => absurd there (fresh i read))
  | sweep i =>
    obtain ⟨same, fresh⟩ := sweepMotor_same i b
    exact latched.of_same same (by rw [here]; rfl) (fun i read there => absurd there (fresh i read))
  | raiseRead i =>
    refine latched.of_same ⟨rfl, rfl⟩ (by rw [here]; rfl) (fun j read there => ?_)
    cases there
    rfl
  | raiseWrite i read => exact ⟨fun m _ _ => mem_motors m, fun i read there => by cases there⟩
  | check i => exact ⟨fun m _ _ => mem_motors m, fun i read there => by cases there⟩
  | checking i left =>
    cases left with
    | nil =>
      exact latched.of_same ⟨rfl, rfl⟩ (by rw [here]; rfl) (fun j read there => absurd there (fun same => following_fresh same))
    | cons m left =>
      refine ⟨fun k set high => ?_, fun i read there => by cases there⟩
      have was : b.shared.over k := (over_congr k (checkMotors_ovrReg [m] b.shared)).mp set
      obtain ⟨on, other⟩ := (checkMotors_motr [m] b.shared k).mp high
      have waiting := latched.off k was on
      rw [here] at waiting
      rcases List.mem_cons.mp waiting with same | later
      · exact absurd ⟨List.mem_singleton.mpr same, was⟩ other
      · exact later

/-- The latch holds between any two steps of the main loop, whatever the bus does. -/
theorem next_latched (latched : Latched b) (e : Event) : Latched (next b e) := by
  cases e with
  | write data => exact processData_latched data latched
  | read => exact latched.of_less rfl (fun _ set => set) (fun _ high => high)
  | killSwitch on => exact latched.of_less rfl (fun _ set => set) (fun _ high => high)
  | main r => exact mainStep_latched r latched

theorem after_latched (latched : Latched b) (events : List Event) : Latched (after next b events) := by
  induction events generalizing b with
  | nil => exact latched
  | cons e rest ih => exact ih (next_latched latched e)

/-! ### A bit stays until it is cleared -/

/-- The bit of the motor is set and the motor is off. -/
structure Tripped (m : Motor) (b : Board) : Prop where
  set : b.shared.over m
  off : b.shared.motr m = false

theorem Tripped.of_same {m : Motor} (tripped : Tripped m b) (same : SameMotors b.shared c.shared) : Tripped m c where
  set := (over_congr m same.1).mpr tripped.set
  off := by rw [same.2, tripped.off]

theorem processData_tripped {m : Motor} (data : Byte) (tripped : Tripped m b) (keeps : ¬ Clears m b (.write data)) :
    Tripped m (next b (.write data)) := by
  rcases processData_cases data b.shared with ⟨k, top, isOff, reg, off⟩ | ⟨k, _, _, clear, reg, outs⟩ | same
  · have other : m ≠ k := by
      rintro rfl
      exact keeps ⟨top, isOff⟩
    refine ⟨(over_clear k m reg).mpr ⟨tripped.set, other⟩, Bool.eq_false_iff.mpr fun high => ?_⟩
    have was := ((off m).mp high).1
    rw [tripped.off] at was
    cases was
  · have other : m ≠ k := by
      rintro rfl
      exact clear tripped.set
    refine ⟨(over_congr m reg).mpr tripped.set, ?_⟩
    have here := congrFun outs m
    rw [Function.update_of_ne other, tripped.off] at here
    exact here
  · exact tripped.of_same same

theorem mainStep_tripped {m : Motor} (r : Readings) (latched : Latched b) (tripped : Tripped m b)
    (keeps : ¬ Clears m b (.main r)) : Tripped m (mainStep r b) := by
  unfold mainStep
  cases here : b.point with
  | killing left =>
    cases left with
    | nil => exact tripped.of_same ⟨rfl, rfl⟩
    | cons k left =>
      refine ⟨tripped.set, ?_⟩
      by_cases same : m = k
      · simp [mainAt, same]
      · simpa [mainAt, same] using tripped.off
  | killWrite read => exact absurd ⟨read, here⟩ keeps
  | measure => exact tripped.of_same (measure_same r b).1
  | sweep i => exact tripped.of_same (sweepMotor_same i b).1
  | raiseWrite i read =>
    refine ⟨?_, tripped.off⟩
    have held := latched.read i read here m tripped.set
    rw [mask_eq, and_bit_ne_zero _ (index_lt m)] at held
    rw [over_iff]
    show (read ||| bit 8 i).getLsbD m.index = true
    rw [BitVec.getLsbD_or, held, Bool.true_or]
  | checking i left =>
    cases left with
    | nil => exact tripped.of_same ⟨rfl, rfl⟩
    | cons k left =>
      refine ⟨(over_congr m (checkMotors_ovrReg [k] b.shared)).mpr tripped.set, Bool.eq_false_iff.mpr fun high => ?_⟩
      have was := ((checkMotors_motr [k] b.shared m).mp high).1
      rw [tripped.off] at was
      cases was
  | _ => exact tripped.of_same ⟨rfl, rfl⟩

theorem next_tripped {m : Motor} (latched : Latched b) (tripped : Tripped m b) (e : Event) (keeps : ¬ Clears m b e) :
    Tripped m (next b e) := by
  cases e with
  | write data => exact processData_tripped data tripped keeps
  | read => exact tripped.of_same ⟨rfl, rfl⟩
  | killSwitch on => exact tripped.of_same ⟨rfl, rfl⟩
  | main r => exact mainStep_tripped r latched tripped keeps

/-- A motor that is off with its bit set stays so, up to an event that clears the bit. -/
theorem after_tripped {m : Motor} (latched : Latched b) (tripped : Tripped m b) (events : List Event) :
    Tripped m (after next b events) ∨
      ∃ before e rest, events = before ++ e :: rest ∧ Clears m (after next b before) e := by
  induction events generalizing b with
  | nil => exact .inl tripped
  | cons e rest ih =>
    by_cases clears : Clears m b e
    · exact .inr ⟨[], e, rest, rfl, clears⟩
    rcases ih (next_latched latched e) (next_tripped latched tripped e clears) with stays | ⟨before, f, later, rfl, cleared⟩
    · exact .inl stays
    · exact .inr ⟨e :: before, f, later, rfl, cleared⟩

end

end Tortuga.Distro
