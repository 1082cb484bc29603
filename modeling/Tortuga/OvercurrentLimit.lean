import Tortuga.OvercurrentLatch
import Tortuga.DistroArrays

/-!
The bound of the overcurrent sweep (`distro.c`): where the arithmetic in 16 bits gives the
value that the host is told of (`sensorapi.h`), and what the sweep has seen of a motor
before it trips it.
-/
namespace Tortuga.Distro
open Tortuga.BusCodes
open Tortuga.Bitmaps (bit and_bit_ne_zero bit_getLsbD clear_getLsbD set_getLsbD)
open Tortuga.Machines (after Each after_append)
set_option linter.unusedSimpArgs false

/-! ### The bound -/

/-- "maxCurrent (mA) = (a * speed) / 6 + b*40". -/
def documentedLimit (a b speed : Byte) : ℕ := a.toNat * speed.toNat / 6 + b.toNat * 40

theorem byte_product (a v : Byte) : (a.setWidth 16 * v.setWidth 16).toNat = a.toNat * v.toNat := by
  have ha := a.isLt
  have hv := v.isLt
  have small : a.toNat * v.toNat ≤ 255 * 255 := Nat.mul_le_mul (by omega) (by omega)
  rw [BitVec.toNat_mul, BitVec.toNat_setWidth, BitVec.toNat_setWidth, Nat.mod_eq_of_lt (show a.toNat < 2 ^ 16 by omega),
    Nat.mod_eq_of_lt (show v.toNat < 2 ^ 16 by omega)]
  exact Nat.mod_eq_of_lt (by omega)

/-- A sixth of a word that is taken as an `int`. -/
theorem sixth_toNat (x : Word) :
    (x.sdiv 6#16).toNat = if x.toNat < 32768 then x.toNat / 6 else (65536 - (65536 - x.toNat) / 6) % 65536 := by
  have word := x.isLt
  rw [BitVec.sdiv_eq, show (6#16).msb = false from rfl, BitVec.msb_eq_decide]
  by_cases low : x.toNat < 32768
  · rw [decide_eq_false (by omega), if_pos low]
    exact BitVec.toNat_udiv
  · have size : (-x).toNat = 65536 - x.toNat := by
      rw [BitVec.toNat_neg]
      omega
    rw [decide_eq_true (by omega), if_neg low]
    show (-((-x) / 6#16)).toNat = _
    rw [BitVec.toNat_neg, BitVec.toNat_udiv, size]
    rfl

/-- The bound is the documented one exactly where the product of the two bytes is an `int`. -/
theorem maxCurrent_eq_iff (s : Shared) (i : ℕ) :
    (maxCurrent s i).toNat = documentedLimit (s.cfgRegs 0) (s.cfgRegs 1) (s.mSpeeds i) ↔
      (s.cfgRegs 0).toNat * (s.mSpeeds i).toNat < 32768 := by
  have ha := (s.cfgRegs 0).isLt
  have hv := (s.mSpeeds i).isLt
  have hb := (s.cfgRegs 1).isLt
  have small : (s.cfgRegs 0).toNat * (s.mSpeeds i).toNat ≤ 255 * 255 := Nat.mul_le_mul (by omega) (by omega)
  have offset : ((s.cfgRegs 1).setWidth 16 * 40#16).toNat = (s.cfgRegs 1).toNat * 40 := byte_product _ 40#8
  rw [maxCurrent, documentedLimit, BitVec.toNat_add, sixth_toNat, byte_product, offset]
  generalize (s.cfgRegs 0).toNat * (s.mSpeeds i).toNat = product at *
  by_cases low : product < 32768
  · rw [if_pos low]
    exact ⟨fun _ => low, fun _ => Nat.mod_eq_of_lt (by omega)⟩
  · rw [if_neg low]
    omega

/-! ### What the sweep has seen -/

/-- The current of the motor `i` is above the documented limit. -/
def Exceeds (s : Shared) (i : ℕ) : Prop := documentedLimit (s.cfgRegs 0) (s.cfgRegs 1) (s.mSpeeds i) < (s.iMotor i).toNat

instance (s : Shared) (i : ℕ) : Decidable (Exceeds s i) := inferInstanceAs (Decidable (_ < _))

/-- Whether the sweep looks at the motor `i`, and then whether the current is above the limit. -/
def look (i : ℕ) (b : Board) : Event → List Bool
  | .main _ => if b.point = .sweep i then [decide (Exceeds b.shared i)] else []
  | .write _ | .read | .killSwitch _ => []

/-- What the sweeps of a run see of the motor `i`, in their order. -/
def looks (i : ℕ) : Board → List Event → List Bool
  | _, [] => []
  | b, e :: rest => look i b e ++ looks i (next b e) rest

/-- In what the sweep looks at, the product of slope and speed is an `int`. -/
def Small (b : Board) : Event → Prop
  | .main _ => ∀ i, b.point = .sweep i → (b.shared.cfgRegs 0).toNat * (b.shared.mSpeeds i).toNat < 32768
  | .write _ | .read | .killSwitch _ => True

theorem exceeds_iff {s : Shared} {i : ℕ} (small : (s.cfgRegs 0).toNat * (s.mSpeeds i).toNat < 32768) :
    s.iMotor i > maxCurrent s i ↔ Exceeds s i := by
  rw [Exceeds, ← (maxCurrent_eq_iff s i).mpr small, gt_iff_lt, BitVec.lt_def]

/-- The last look, and the last two, were above the limit. -/
def Once (seen : List Bool) : Prop := ∃ earlier, seen = earlier ++ [true]
def Twice (seen : List Bool) : Prop := ∃ earlier, seen = earlier ++ [true, true]

/-- The motor `i` is being tripped. -/
def Point.Trips (i : ℕ) : Point → Prop
  | .raiseRead j | .raiseWrite j _ => j = i
  | _ => False

/-- What the main loop is to write to `ovrReg`, besides the bit that it raises. -/
def Point.written : Point → Option Byte
  | .raiseWrite _ read | .killWrite read => some read
  | _ => none

/-- What is known of the sweep from what it has seen of each motor. -/
structure Filtered (seen : Motor → List Bool) (b : Board) : Prop where
  filter : ∀ m, b.ovrTmp.getLsbD m.index = true → Once (seen m)
  trips : ∀ m, b.point.Trips m.index → Twice (seen m)
  register : ∀ m, b.shared.over m → [true, true] <:+: seen m
  written : ∀ m, ∀ read ∈ b.point.written, read.getLsbD m.index = true → [true, true] <:+: seen m

section
variable {seen : Motor → List Bool} {b c : Board}

theorem Twice.contained {xs : List Bool} (twice : Twice xs) : [true, true] <:+: xs := by
  obtain ⟨earlier, rfl⟩ := twice
  exact ⟨earlier, [], List.append_nil _⟩

/-- Nothing is being tripped or written. -/
def Point.Idle (p : Point) : Prop := (∀ i, ¬ p.Trips i) ∧ p.written = none

theorem following_idle (i : ℕ) : (Point.following i).Idle := by
  unfold Point.following
  split_ifs
  all_goals exact ⟨fun _ => id, rfl⟩

theorem Filtered.keep (filtered : Filtered seen b) (filter : c.ovrTmp = b.ovrTmp)
    (register : ∀ m, c.shared.over m → b.shared.over m) (point : c.point = b.point ∨ c.point.Idle) : Filtered seen c where
  filter m set := filtered.filter m (by rwa [filter] at set)
  trips m trips := by
    rcases point with same | idle
    · exact filtered.trips m (by rwa [same] at trips)
    · exact absurd trips (idle.1 m.index)
  register m beyond := filtered.register m (register m beyond)
  written m read found set := by
    rcases point with same | idle
    · exact filtered.written m read (by rwa [same] at found) set
    · rw [idle.2] at found
      cases found

theorem Filtered.same_seen {more : Motor → List Bool} (filtered : Filtered seen b) (none : ∀ m, more m = []) :
    Filtered (fun m => seen m ++ more m) b := by
  have same : (fun m => seen m ++ more m) = seen := funext fun m => by rw [none, List.append_nil]
  rwa [same]

/-- The bit of a motor in a byte of the main loop. -/
theorem bit_other {m k : Motor} (other : m ≠ k) (word : Byte) :
    (word ||| bit 8 k.index).getLsbD m.index = word.getLsbD m.index ∧
    (word &&& ~~~bit 8 k.index).getLsbD m.index = word.getLsbD m.index := by
  have apart : m.index ≠ k.index := fun same => other (index_injective same)
  rw [set_getLsbD _ (index_lt k), clear_getLsbD _ (index_lt k) (index_lt m)]
  simp [apart]

/-- What the sweep makes of the current of the motor `k`. -/
theorem sweep_filtered (r : Readings) {k : Motor} (filtered : Filtered seen b) (point : b.point = .sweep k.index)
    (small : (b.shared.cfgRegs 0).toNat * (b.shared.mSpeeds k.index).toNat < 32768) :
    Filtered (fun m => seen m ++ look m.index b (.main r)) (sweepMotor k.index b) := by
  have here : look k.index b (.main r) = [decide (Exceeds b.shared k.index)] := if_pos point
  have elsewhere {m : Motor} (other : m ≠ k) : look m.index b (.main r) = [] := by
    refine if_neg ?_
    rw [point, Point.sweep.injEq]
    exact fun same => other (index_injective same).symm
  have register (m : Motor) (beyond : b.shared.over m) : [true, true] <:+: seen m ++ look m.index b (.main r) :=
    (filtered.register m beyond).trans (List.prefix_append _ _).isInfix
  have bit (m : Motor) (set : b.ovrTmp.getLsbD m.index = true) (other : m ≠ k) : Once (seen m ++ look m.index b (.main r)) := by
    rw [elsewhere other, List.append_nil]
    exact filtered.filter m set
  unfold sweepMotor
  by_cases beyond : b.shared.iMotor k.index > maxCurrent b.shared k.index
  · have above : look k.index b (.main r) = [true] := by rw [here, decide_eq_true ((exceeds_iff small).mp beyond)]
    rw [if_pos beyond]
    by_cases second : b.ovrTmp &&& Bitmaps.bit 8 k.index ≠ 0#8
    · -- The look before was above the limit as well.
      obtain ⟨earlier, before⟩ := filtered.filter k ((and_bit_ne_zero _ (index_lt k)).mp second)
      have twice : Twice (seen k ++ look k.index b (.main r)) := ⟨earlier, by rw [before, above, List.append_assoc]; rfl⟩
      rw [if_pos second]
      refine ⟨fun m set => ?_, fun m trips => ?_, register, nofun⟩
      · by_cases same : m = k
        · rw [same, above]
          exact ⟨seen k, rfl⟩
        · exact bit m set same
      · rw [index_injective (m := k) (k := m) trips] at twice
        exact twice
    · rw [if_neg second]
      refine ⟨fun m set => ?_, fun m trips => absurd trips ((following_idle _).1 _), register, fun m read found => ?_⟩
      · by_cases same : m = k
        · rw [same, above]
          exact ⟨seen k, rfl⟩
        · exact bit m (by rwa [(bit_other same _).1] at set) same
      · rw [(following_idle _).2] at found
        cases found
  · rw [if_neg beyond]
    refine ⟨fun m set => ?_, fun m trips => absurd trips ((following_idle _).1 _), register, fun m read found => ?_⟩
    · by_cases same : m = k
      · rw [same, clear_getLsbD _ (index_lt k) (index_lt k)] at set
        simp at set
      · exact bit m (by rwa [(bit_other same _).2] at set) same
    · rw [(following_idle _).2] at found
      cases found

theorem motor_of_channel {i : ℕ} (low : i < 6 ∨ i = 7) : ∃ m : Motor, m.index = i := by
  rcases low with low | rfl
  · match i, low with
    | 0, _ => exact ⟨.motr1, rfl⟩
    | 1, _ => exact ⟨.motr2, rfl⟩
    | 2, _ => exact ⟨.motr3, rfl⟩
    | 3, _ => exact ⟨.motr4, rfl⟩
    | 4, _ => exact ⟨.motr5, rfl⟩
    | 5, _ => exact ⟨.motr6, rfl⟩
  · exact ⟨.derpy, rfl⟩

theorem look_nil {r : Readings} {i : ℕ} (point : b.point ≠ .sweep i) : look i b (.main r) = [] := if_neg point

theorem measure_ovrTmp (r : Readings) (b : Board) : (mainAt r b .measure).ovrTmp = b.ovrTmp := by
  unfold mainAt takeReadings takeTemperature
  split_ifs <;> rfl

theorem measure_idle (r : Readings) (b : Board) : (mainAt r b .measure).point.Idle := by
  unfold mainAt
  dsimp only
  split_ifs
  · exact ⟨fun _ => id, rfl⟩
  · exact ⟨fun _ => id, rfl⟩

theorem mainStep_filtered (r : Readings) (placed : Placed b) (filtered : Filtered seen b) (small : Small b (.main r)) :
    Filtered (fun m => seen m ++ look m.index b (.main r)) (mainStep r b) := by
  have blind (apart : ∀ i, b.point ≠ .sweep i) : Filtered (fun m => seen m ++ look m.index b (.main r)) b :=
    filtered.same_seen fun m => look_nil (apart m.index)
  unfold mainStep
  cases point : b.point with
  | sweep i =>
    obtain ⟨k, rfl⟩ := motor_of_channel (placed.channel i (by rw [point]; rfl))
    exact sweep_filtered r filtered point (small _ point)
  | startUp => exact (blind (by simp [point])).keep rfl (fun _ => id) (.inr ⟨fun _ => id, rfl⟩)
  | loop =>
    refine (blind (by simp [point])).keep rfl (fun _ => id) (.inr ?_)
    unfold mainAt
    dsimp only
    split_ifs
    · exact ⟨fun _ => id, rfl⟩
    · exact ⟨fun _ => id, rfl⟩
  | killing left =>
    cases left with
    | nil => exact (blind (by simp [point])).keep rfl (fun _ => id) (.inr ⟨fun _ => id, rfl⟩)
    | cons k left => exact (blind (by simp [point])).keep rfl (fun _ => id) (.inr ⟨fun _ => id, rfl⟩)
  | killRead =>
    have known := blind (by simp [point])
    refine ⟨known.filter, fun m => nofun, known.register, ?_⟩
    rintro m read ⟨⟩ set
    exact known.register m ((over_iff m).mpr set)
  | killWrite read =>
    refine (blind (by simp [point])).keep rfl (fun m beyond => absurd (killMask_clear read m) beyond) (.inr ⟨fun _ => id, rfl⟩)
  | measure =>
    obtain ⟨register, -⟩ := (measure_same r b).1
    exact (blind (by simp [point])).keep (measure_ovrTmp r b) (fun m => (over_congr m register).mp) (.inr (measure_idle r b))
  | raiseRead i =>
    have known := blind (by simp [point])
    refine ⟨known.filter, fun m trips => known.trips m (by rw [point]; exact trips), known.register, ?_⟩
    rintro m read ⟨⟩ set
    exact known.register m ((over_iff m).mpr set)
  | raiseWrite i read =>
    have known := blind (by simp [point])
    obtain ⟨k, rfl⟩ := motor_of_channel (placed.channel i (by rw [point]; rfl))
    refine ⟨known.filter, fun m => nofun, fun m beyond => ?_, nofun⟩
    have set : (read ||| Bitmaps.bit 8 k.index).getLsbD m.index = true := (over_iff m).mp beyond
    by_cases same : m = k
    · exact (known.trips m (by rw [point, same]; rfl)).contained
    · rw [(bit_other same read).1] at set
      exact known.written m read (by rw [point]; rfl) set
  | check i => exact (blind (by simp [point])).keep rfl (fun _ => id) (.inr ⟨fun _ => id, rfl⟩)
  | checking i left =>
    cases left with
    | nil => exact (blind (by simp [point])).keep rfl (fun _ => id) (.inr (following_idle i))
    | cons k left =>
      have register : (checkMotors [k] b.shared).ovrReg = b.shared.ovrReg := checkMotors_ovrReg [k] b.shared
      exact (blind (by simp [point])).keep rfl (fun m => (over_congr m register).mp) (.inr ⟨fun _ => id, rfl⟩)

theorem next_filtered (e : Event) (placed : Placed b) (filtered : Filtered seen b) (small : Small b e) :
    Filtered (fun m => seen m ++ look m.index b e) (next b e) := by
  cases e with
  | main r => exact mainStep_filtered r placed filtered small
  | read => exact (filtered.same_seen fun _ => rfl).keep rfl (fun _ => id) (.inl rfl)
  | killSwitch on => exact (filtered.same_seen fun _ => rfl).keep rfl (fun _ => id) (.inl rfl)
  | write data =>
    refine (filtered.same_seen fun _ => rfl).keep rfl (fun m beyond => ?_) (.inl rfl)
    rcases processData_cases data b.shared with ⟨k, -, -, register, -⟩ | ⟨k, -, -, -, register, -⟩ | same
    · exact ((over_clear k m register).mp beyond).1
    · exact (over_congr m register).mp beyond
    · exact (over_congr m same.1).mp beyond

theorem after_filtered {events : List Event} (placed : Placed b) (filtered : Filtered seen b) (small : Each next Small b events) :
    Filtered (fun m => seen m ++ looks m.index b events) (after next b events) := by
  induction events generalizing b seen with
  | nil => exact filtered.same_seen fun _ => rfl
  | cons e rest ih =>
    have later := ih (next_placed e placed) (next_filtered e placed filtered small.1) small.2
    simp only [List.append_assoc] at later
    exact later

end

theorem initial_filtered (memory : ℕ → Byte) (killSw : Bool) : Filtered (fun _ => []) (initial memory killSw) := by
  have clear (k : ℕ) : (0#8).getLsbD k = false := by simp
  refine ⟨fun m set => ?_, fun m => nofun, fun m beyond => ?_, fun m => nofun⟩
  · exact absurd (set.symm.trans (clear m.index)) (by decide)
  · exact absurd (((over_iff m).mp beyond).symm.trans (clear m.index)) (by decide)

/-- The bound of the sweep is the documented one exactly where the product of slope and speed is less than
    2^15. In a run where it always is, the sweep trips a motor only when the current was above the
    documented limit the last two times that the sweep looked at the motor, and the bit of a motor is set
    only after that has been so. -/
theorem overcurrent_limit (memory : ℕ → Byte) (killSw : Bool) :
    (∀ (s : Shared) (i : ℕ), (maxCurrent s i).toNat = documentedLimit (s.cfgRegs 0) (s.cfgRegs 1) (s.mSpeeds i) ↔
      (s.cfgRegs 0).toNat * (s.mSpeeds i).toNat < 32768) ∧
    ∀ events, Each next Small (initial memory killSw) events → ∀ m : Motor,
      ((after next (initial memory killSw) events).point.Trips m.index → Twice (looks m.index (initial memory killSw) events)) ∧
      ((after next (initial memory killSw) events).shared.over m → [true, true] <:+: looks m.index (initial memory killSw) events) := by
  refine ⟨maxCurrent_eq_iff, fun events small m => ?_⟩
  have filtered := after_filtered (placed_initial memory killSw) (initial_filtered memory killSw) small
  exact ⟨filtered.trips m, filtered.register m⟩

/-- With all three bytes at 255 the product wraps around, and the bound is about half of the documented limit. -/
theorem maxCurrent_wraps : ∃ s : Shared, s.cfgRegs 0 = 255#8 ∧ s.cfgRegs 1 = 255#8 ∧ s.mSpeeds 0 = 255#8 ∧
    documentedLimit 255#8 255#8 255#8 = 21037 ∧ (maxCurrent s 0).toNat = 10115 := by
  refine ⟨{ (initial (fun _ => 255#8) true).shared with }, rfl, rfl, rfl, by decide, by decide⟩

end Tortuga.Distro
