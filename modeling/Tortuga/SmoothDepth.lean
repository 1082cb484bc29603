import Tortuga.Trajectories
import Mathlib.Analysis.Calculus.Deriv.MeanValue

/-!
The profile of a change of depth with the polynomial of degree seven: it goes from the initial to the
final value without turning back, starts and ends at rest up to the third derivative, and is as fast
as `maxRate` half way.
-/
namespace Tortuga.SmoothDepth
open Tortuga.Curves Tortuga.Trajectories Polynomial Topology Filter

/-- What is promised of a profile. Before the start it reports the initial rate, whatever that is. -/
structure Smooth (t : ScalarSVAJTrajectory ℝ) (maxRate : ℝ) : Prop where
  start : t.computeValue t.getInitialTime = t.initialValue
  stop : t.computeValue t.getFinalTime = t.finalValue
  rises : t.initialValue ≤ t.finalValue → MonotoneOn t.computeValue (Set.Icc t.getInitialTime t.getFinalTime)
  falls : t.finalValue ≤ t.initialValue → AntitoneOn t.computeValue (Set.Icc t.getInitialTime t.getFinalTime)
  vanishes : ∀ k : ℕ, 1 ≤ k → k ≤ 3 → ∃ d : ℝ → ℝ, (∀ time, t.computeDerivative time k = some (d time)) ∧
    Tendsto d (𝓝[≥] t.getInitialTime) (𝓝 0) ∧ Tendsto d (𝓝 t.getFinalTime) (𝓝 0) ∧
    (t.initialRate = 0 → Tendsto d (𝓝 t.getInitialTime) (𝓝 0))
  bounded : ∀ time v, t.getInitialTime ≤ time ∨ |t.initialRate| ≤ maxRate → t.computeDerivative time 1 = some v → |v| ≤ maxRate
  attained : ∃ time v, t.getInitialTime ≤ time ∧ time ≤ t.getFinalTime ∧ t.computeDerivative time 1 = some v ∧ |v| = maxRate

variable {initialValue finalValue initialRate : ℝ} {maxRate : Rate ℝ} {time x : ℝ}

/-- A part of the way times the part that is left. -/
theorem part_nonneg (start : 0 ≤ x) (stop : x ≤ 1) : 0 ≤ (x * (1 - x)) ^ 3 :=
  pow_nonneg (mul_nonneg start (sub_nonneg.mpr stop)) 3

theorem part_le (start : 0 ≤ x) (stop : x ≤ 1) : (x * (1 - x)) ^ 3 ≤ 1 / 64 := by
  have quarter : x * (1 - x) ≤ 1 / 4 := by
    have square := sq_nonneg (x - 1 / 2)
    linarith
  calc (x * (1 - x)) ^ 3 ≤ (1 / 4) ^ 3 := pow_le_pow_left₀ (mul_nonneg start (sub_nonneg.mpr stop)) quarter 3
    _ = 1 / 64 := by norm_num

/-! ### The derivatives, in factors -/

/-- A trajectory as the constructor leaves it, that starts at time zero and does move. -/
structure Moving (t : ScalarSVAJTrajectory ℝ) (maxRate : ℝ) : Prop where
  cp : t.cp = 35
  cq : t.cq = -84
  cr : t.cr = 70
  cs : t.cs = -20
  initialTime : t.initialTime = 0
  finalRate : t.finalRate = 0
  period : 0 < t.timePeriod
  speed : |t.finalValue - t.initialValue| * (1 / t.timePeriod) = 16 / 35 * maxRate

variable {t : ScalarSVAJTrajectory ℝ} {rate : ℝ}

theorem moving_init (other : initialValue ≠ finalValue) :
    Moving (ScalarSVAJTrajectory.init initialValue finalValue 0 initialRate maxRate) maxRate := by
  let t := ScalarSVAJTrajectory.init initialValue finalValue 0 initialRate maxRate
  obtain ⟨cp, cq, cr, cs⟩ : t.cp = 35 ∧ t.cq = -84 ∧ t.cr = 70 ∧ t.cs = -20 := ScalarSVAJTrajectory.init_coefficients ..
  have period : t.timePeriod ≠ 0 := fun none => other ((ScalarSVAJTrajectory.timePeriod_eq_zero ..).mp none)
  refine ⟨cp, cq, cr, cs, rfl, rfl, lt_of_le_of_ne (ScalarSVAJTrajectory.timePeriod_nonneg ..) period.symm, ?_⟩
  have change : |finalValue - initialValue| ≠ 0 := abs_ne_zero.mpr (sub_ne_zero.mpr other.symm)
  have positive : (maxRate : ℝ) ≠ 0 := ne_of_gt maxRate.2
  change |finalValue - initialValue| * (1 / (35 / 16 * |finalValue - initialValue| / maxRate)) = _
  field_simp

theorem Moving.derivative_one (moving : Moving t rate) (time : ℝ) : (derivative t.septic).eval time =
    (t.finalValue - t.initialValue) * (1 / t.timePeriod) * (140 * (time / t.timePeriod * (1 - time / t.timePeriod)) ^ 3) := by
  rw [ScalarSVAJTrajectory.septic_derivative, moving.cp, moving.cq, moving.cr, moving.cs]
  ring

/-- All three are zero at both ends. -/
theorem Moving.derivative_ends (moving : Moving t rate) {k : ℕ} (low : 1 ≤ k) (high : k ≤ 3) :
    (derivative^[k] t.septic).eval 0 = 0 ∧ (derivative^[k] t.septic).eval t.timePeriod = 0 := by
  have whole : t.timePeriod / t.timePeriod = 1 := div_self (ne_of_gt moving.period)
  interval_cases k
  · rw [Function.iterate_one, moving.derivative_one, moving.derivative_one, whole, zero_div]
    constructor <;> ring
  · rw [ScalarSVAJTrajectory.septic_derivative_two, ScalarSVAJTrajectory.septic_derivative_two, whole, zero_div,
      moving.cp, moving.cq, moving.cr, moving.cs]
    constructor <;> ring
  · rw [ScalarSVAJTrajectory.septic_derivative_three, ScalarSVAJTrajectory.septic_derivative_three, whole, zero_div,
      moving.cp, moving.cq, moving.cr, moving.cs]
    constructor <;> ring

/-- The derivatives that are given are curves themselves. -/
theorem Moving.computeDerivative_eq (moving : Moving t rate) {k : ℕ} (low : 1 ≤ k) (high : k ≤ 3) (time : ℝ) :
    t.computeDerivative time k =
      some (ride (derivative^[k] t.septic) 0 t.timePeriod (if k = 1 then t.initialRate else 0) 0 time) := by
  rcases lt_or_ge time 0 with early | started
  · rw [ride_before early, ScalarSVAJTrajectory.computeDerivative, if_pos early]
    interval_cases k <;> rfl
  · rcases lt_or_ge time t.timePeriod with going | past
    · rw [ride_within started (by rwa [zero_add]), sub_zero, t.computeDerivative_within started going low high]
    · rw [ride_after moving.period.le (by rwa [zero_add]), ScalarSVAJTrajectory.computeDerivative, if_neg (not_lt.mpr started),
        if_pos past, moving.finalRate]
      interval_cases k <;> rfl

/-- While the profile moves it is the polynomial, both ends included. -/
theorem Moving.computeValue_eq (moving : Moving t rate) (start : 0 ≤ time) (stop : time ≤ t.timePeriod) :
    t.computeValue time = t.septic.eval time := by
  have nonzero := ne_of_gt moving.period
  rw [t.computeValue_eq, moving.initialTime]
  rcases stop.lt_or_eq with going | rfl
  · rw [ride_within start (by rwa [zero_add]), sub_zero]
  · rw [ride_after moving.period.le (zero_add _).le, ScalarSVAJTrajectory.septic_eval, div_self nonzero, moving.cp, moving.cq,
      moving.cr, moving.cs]
    ring

/-- How far a rate of the polynomial has the sign of the whole change. -/
theorem Moving.part (moving : Moving t rate) (start : 0 ≤ time) (stop : time ≤ t.timePeriod) :
    0 ≤ time / t.timePeriod ∧ time / t.timePeriod ≤ 1 :=
  ⟨div_nonneg start moving.period.le, (div_le_one moving.period).mpr stop⟩

theorem Moving.rises (moving : Moving t rate) (up : t.initialValue ≤ t.finalValue) :
    MonotoneOn t.computeValue (Set.Icc 0 t.timePeriod) := by
  have poly : MonotoneOn (fun s => t.septic.eval s) (Set.Icc 0 t.timePeriod) := by
    refine monotoneOn_of_deriv_nonneg (convex_Icc 0 _) t.septic.continuous.continuousOn t.septic.differentiable.differentiableOn
      fun time inside => ?_
    have within := interior_subset inside
    obtain ⟨low, high⟩ := moving.part within.1 within.2
    rw [t.septic.deriv, moving.derivative_one]
    have slope : 0 ≤ (t.finalValue - t.initialValue) * (1 / t.timePeriod) :=
      mul_nonneg (sub_nonneg.mpr up) (one_div_pos.mpr moving.period).le
    exact mul_nonneg slope (mul_nonneg (by norm_num) (part_nonneg low high))
  exact poly.congr fun time inside => (moving.computeValue_eq inside.1 inside.2).symm

theorem Moving.falls (moving : Moving t rate) (down : t.finalValue ≤ t.initialValue) :
    AntitoneOn t.computeValue (Set.Icc 0 t.timePeriod) := by
  have poly : AntitoneOn (fun s => t.septic.eval s) (Set.Icc 0 t.timePeriod) := by
    refine antitoneOn_of_deriv_nonpos (convex_Icc 0 _) t.septic.continuous.continuousOn t.septic.differentiable.differentiableOn
      fun time inside => ?_
    have within := interior_subset inside
    obtain ⟨low, high⟩ := moving.part within.1 within.2
    rw [t.septic.deriv, moving.derivative_one]
    have slope : (t.finalValue - t.initialValue) * (1 / t.timePeriod) ≤ 0 :=
      mul_nonpos_of_nonpos_of_nonneg (sub_nonpos.mpr down) (one_div_pos.mpr moving.period).le
    exact mul_nonpos_of_nonpos_of_nonneg slope (mul_nonneg (by norm_num) (part_nonneg low high))
  exact poly.congr fun time inside => (moving.computeValue_eq inside.1 inside.2).symm

/-! ### The ends -/

theorem Moving.vanishes (moving : Moving t rate) {k : ℕ} (low : 1 ≤ k) (high : k ≤ 3) :
    ∃ d : ℝ → ℝ, (∀ time, t.computeDerivative time k = some (d time)) ∧ Tendsto d (𝓝[≥] 0) (𝓝 0) ∧
      Tendsto d (𝓝 t.timePeriod) (𝓝 0) ∧ (t.initialRate = 0 → Tendsto d (𝓝 0) (𝓝 0)) := by
  obtain ⟨start, stop⟩ := moving.derivative_ends low high
  let resting (r : ℝ) := ride (derivative^[k] t.septic) 0 t.timePeriod r 0
  -- from rest to rest the derivative is continuous
  have continuous : Continuous (resting 0) := ride_continuous moving.period.le (fun _ => ⟨start, stop⟩) fun _ => rfl
  have first : resting 0 0 = 0 := by
    calc resting 0 0 = (derivative^[k] t.septic).eval (0 - 0) := ride_within le_rfl (moving.period.trans_eq (zero_add _).symm)
      _ = 0 := by rw [sub_zero, start]
  have last : resting 0 t.timePeriod = 0 := ride_after moving.period.le (zero_add _).le
  have later (r : ℝ) {time : ℝ} (started : 0 ≤ time) : resting r time = resting 0 time := by
    have after : ¬ time - 0 < 0 := by linarith
    simp only [resting, ride, if_neg after]
  refine ⟨resting (if k = 1 then t.initialRate else 0), moving.computeDerivative_eq low high, ?_, ?_, ?_⟩
  · have limit : Tendsto (resting 0) (𝓝[≥] 0) (𝓝 0) := by
      have whole := continuous.tendsto 0
      rw [first] at whole
      exact whole.mono_left nhdsWithin_le_nhds
    refine limit.congr' ?_
    filter_upwards [self_mem_nhdsWithin] with time started
    exact (later _ started).symm
  · have limit := continuous.tendsto t.timePeriod
    rw [last] at limit
    refine limit.congr' ?_
    filter_upwards [Ioi_mem_nhds moving.period] with time started
    exact (later _ (Set.mem_Ioi.mp started).le).symm
  · intro zero
    have limit := continuous.tendsto 0
    rw [first] at limit
    have rest : (if k = 1 then t.initialRate else 0) = 0 := by rw [zero, ite_self]
    rw [rest]
    exact limit

/-! ### The speed -/

theorem Moving.speed_eq (moving : Moving t rate) (low : 0 ≤ time / t.timePeriod) (high : time / t.timePeriod ≤ 1) :
    |(derivative t.septic).eval time| = 64 * rate * (time / t.timePeriod * (1 - time / t.timePeriod)) ^ 3 := by
  have scale : |1 / t.timePeriod| = 1 / t.timePeriod := abs_of_pos (one_div_pos.mpr moving.period)
  have part : |140 * (time / t.timePeriod * (1 - time / t.timePeriod)) ^ 3| =
      140 * (time / t.timePeriod * (1 - time / t.timePeriod)) ^ 3 := abs_of_nonneg (mul_nonneg (by norm_num) (part_nonneg low high))
  rw [moving.derivative_one, abs_mul, abs_mul, scale, part, moving.speed]
  ring

theorem Moving.bounded (moving : Moving t rate) (positive : 0 ≤ rate) {v : ℝ} (after : 0 ≤ time ∨ |t.initialRate| ≤ rate)
    (given : t.computeDerivative time 1 = some v) : |v| ≤ rate := by
  have same := moving.computeDerivative_eq le_rfl (by decide) time
  rw [Nat.cast_one, given, Option.some.injEq, if_pos rfl] at same
  rw [same]
  rcases lt_or_ge time 0 with early | started
  · rw [ride_before early]
    exact after.resolve_left (not_le.mpr early)
  · rcases lt_or_ge time t.timePeriod with going | past
    · obtain ⟨low, high⟩ := moving.part started going.le
      rw [ride_within started (by rwa [zero_add]), sub_zero, Function.iterate_one, moving.speed_eq low high]
      calc 64 * rate * (time / t.timePeriod * (1 - time / t.timePeriod)) ^ 3 ≤ 64 * rate * (1 / 64) :=
            mul_le_mul_of_nonneg_left (part_le low high) (by linarith)
        _ = rate := by ring
    · rw [ride_after moving.period.le (by rwa [zero_add]), abs_zero]
      exact positive

theorem Moving.attained (moving : Moving t rate) :
    ∃ v, t.computeDerivative (t.timePeriod / 2) 1 = some v ∧ |v| = rate := by
  have half : t.timePeriod / 2 / t.timePeriod = 1 / 2 := by
    rw [div_right_comm, div_self (ne_of_gt moving.period)]
  refine ⟨(derivative t.septic).eval (t.timePeriod / 2), ?_, ?_⟩
  · exact t.computeDerivative_within (half_pos moving.period).le (half_lt_self moving.period) le_rfl (by decide)
  · rw [moving.speed_eq (by rw [half]; norm_num) (by rw [half]; norm_num), half]
    ring

/-- A depth profile that starts at time zero. -/
theorem depth_smooth (initialValue finalValue initialRate : ℝ) (maxRate : Rate ℝ) (other : initialValue ≠ finalValue) :
    Smooth (ScalarSVAJTrajectory.init initialValue finalValue 0 initialRate maxRate) maxRate := by
  let t := ScalarSVAJTrajectory.init initialValue finalValue 0 initialRate maxRate
  have moving : Moving t maxRate := moving_init other
  have final : t.getFinalTime = t.timePeriod := zero_add _
  have positive := moving.period
  constructor
  · rw [show t.getInitialTime = 0 from rfl, moving.computeValue_eq le_rfl positive.le, ScalarSVAJTrajectory.septic_eval, zero_div]
    ring
  · rw [t.computeValue_eq]
    exact ride_after positive.le le_rfl
  · rw [final]
    exact moving.rises
  · rw [final]
    exact moving.falls
  · rw [final]
    exact fun k low high => moving.vanishes low high
  · exact fun time v after given => moving.bounded maxRate.2.le after given
  · obtain ⟨v, given, fast⟩ := moving.attained
    exact ⟨t.timePeriod / 2, v, (half_pos positive).le, (half_le_self positive.le).trans final.ge, given, fast⟩

theorem depth_smooth_down : Smooth (ScalarSVAJTrajectory.init (5 : ℝ) 2 0 0 ⟨7291 / 10000, by norm_num⟩) (7291 / 10000) :=
  depth_smooth 5 2 0 ⟨7291 / 10000, by norm_num⟩ (by norm_num)

end Tortuga.SmoothDepth
