import Tortuga.Curves
import Tortuga.Numerals
import Mathlib.Algebra.Order.Field.Basic
import Mathlib.LinearAlgebra.Matrix.Notation
import Mathlib.LinearAlgebra.Matrix.ToLinearEquiv

/-!
The scalar trajectories of the motions (`ram/motion/trajectories.py`), in exact arithmetic: a cubic
and one of degree seven, each with its value and its derivatives.
-/
namespace Tortuga.Trajectories
open scoped Tortuga.Numerals
open Tortuga.Curves Polynomial

section
variable {K : Type} [Field K] [LinearOrder K]

/-- `avgRate`, `maxRate` and `accel`. -/
abbrev Rate (K : Type) [Field K] [LinearOrder K] := {rate : K // 0 < rate}

/-- `numpy.linalg.solve`, for four unknowns. -/
abbrev Solve (K : Type) := Matrix (Fin 4) (Fin 4) K → (Fin 4 → K) → Fin 4 → K

/-- It solves each system with a matrix that is not singular. -/
def Solves (solve : Solve K) : Prop := ∀ (A : Matrix (Fin 4) (Fin 4) K) b, A.det ≠ 0 → A.mulVec (solve A b) = b

/-- The values and the rates of a cubic at two times, by its coefficients. -/
def cubicMatrix (ti tf : K) : Matrix (Fin 4) (Fin 4) K :=
  !![1, ti, ti ^ 2, ti ^ 3;
     1, tf, tf ^ 2, tf ^ 3;
     0, 1, 2 * ti, 3 * ti ^ 2;
     0, 1, 2 * tf, 3 * tf ^ 2]

/-- What both scalar trajectories answer before and after their polynomials. -/
def restDerivative (rate : K) (order : ℤ) : Option K :=
  if order = 1 then some rate else if 1 < order then some 0 else none

structure ScalarCubicTrajectory (K : Type) where
  initialValue : K
  finalValue : K
  initialRate : K
  finalRate : K
  initialTime : K
  timePeriod : K
  coefficients : Fin 4 → K

namespace ScalarCubicTrajectory

/-- `__init__`. -/
def init (solve : Solve K) (initialValue finalValue initialTime initialRate : K) (avgRate : Rate K) : ScalarCubicTrajectory K :=
  let timePeriod := |finalValue - initialValue| / avgRate
  { initialValue := initialValue
    finalValue := finalValue
    initialRate := initialRate
    finalRate := 0
    initialTime := initialTime
    timePeriod := timePeriod
    coefficients :=
      if initialValue = finalValue then ![0, 0, 0, 0]
      else solve (cubicMatrix 0 timePeriod) ![initialValue, finalValue, initialRate, 0] }

def computeValue (t : ScalarCubicTrajectory K) (time : K) : K :=
  let time := time - t.initialTime
  if time < 0 then t.initialValue
  else if time ≥ t.timePeriod then t.finalValue
  else
    let c := t.coefficients
    c 0 + time * (c 1 + time * (c 2 + time * c 3))

def computeDerivative (t : ScalarCubicTrajectory K) (time : K) (order : ℤ) : Option K :=
  if time < 0 then restDerivative t.initialRate order
  else if time ≥ t.timePeriod then restDerivative t.finalRate order
  else
    let c := t.coefficients
    if order < 1 then none
    else if order = 1 then some (c 1 + time * (2 * c 2 + time * 3 * c 3))
    else if order = 2 then some (2 * c 2 + 6 * c 3 * time)
    else if order = 3 then some (6 * c 3)
    else some 0

def getInitialTime (t : ScalarCubicTrajectory K) : K := t.initialTime

def getFinalTime (t : ScalarCubicTrajectory K) : K := t.initialTime + t.timePeriod

end ScalarCubicTrajectory

structure ScalarSVAJTrajectory (K : Type) where
  initialValue : K
  finalValue : K
  initialRate : K
  finalRate : K
  initialTime : K
  timePeriod : K
  cp : K
  cq : K
  cr : K
  cs : K

namespace ScalarSVAJTrajectory

/-- `__init__`. -/
def init (initialValue finalValue initialTime initialRate : K) (maxRate : Rate K) : ScalarSVAJTrajectory K :=
  let p := 4
  let q := 5
  let r := 6
  let s := 7
  { initialValue := initialValue
    finalValue := finalValue
    initialRate := initialRate
    finalRate := 0
    initialTime := initialTime
    timePeriod := 35 / 16 * |finalValue - initialValue| / maxRate
    cp := q * r * s / ((q - p) * (r - p) * (s - p))
    cq := p * r * s / ((p - q) * (r - q) * (s - q))
    cr := p * q * s / ((p - r) * (q - r) * (s - r))
    cs := p * q * r / ((p - s) * (q - s) * (r - s)) }

def computeValue (t : ScalarSVAJTrajectory K) (time : K) : K :=
  let time := time - t.initialTime
  if time < 0 then t.initialValue
  else if time ≥ t.timePeriod then t.finalValue
  else
    let chg := t.finalValue - t.initialValue
    let rt := time / t.timePeriod
    t.initialValue + chg * (t.cp * rt ^ 4 + t.cq * rt ^ 5 + t.cr * rt ^ 6 + t.cs * rt ^ 7)

def computeDerivative (t : ScalarSVAJTrajectory K) (time : K) (order : ℤ) : Option K :=
  if time < 0 then restDerivative t.initialRate order
  else if time ≥ t.timePeriod then restDerivative t.finalRate order
  else
    let chg := t.finalValue - t.initialValue
    let rt := time / t.timePeriod
    let it := 1 / t.timePeriod
    if order < 1 then none
    else if order = 1 then
      some (chg * it * (t.cp * 4 * rt ^ 3 + t.cq * 5 * rt ^ 4 + t.cr * 6 * rt ^ 5 + t.cs * 7 * rt ^ 6))
    else if order = 2 then
      some (chg * it ^ 2 * (t.cp * 12 * rt ^ 2 + t.cq * 20 * rt ^ 3 + t.cr * 30 * rt ^ 4 + t.cs * 42 * rt ^ 5))
    else if order = 3 then
      some (chg * it ^ 3 * (t.cp * 24 * rt + t.cq * 60 * rt ^ 2 + t.cr * 120 * rt ^ 3 + t.cs * 210 * rt ^ 4))
    else some 0

def getInitialTime (t : ScalarSVAJTrajectory K) : K := t.initialTime

def getFinalTime (t : ScalarSVAJTrajectory K) : K := t.initialTime + t.timePeriod

end ScalarSVAJTrajectory

end

/-! ### What is promised -/

/-- A scalar trajectory with the values and derivatives that it should have. -/
structure Consistent (computeValue : ℝ → ℝ) (computeDerivative : ℝ → ℤ → Option ℝ)
    (initialTime finalTime initialValue finalValue : ℝ) : Prop where
  before : ∀ t < initialTime, computeValue t = initialValue
  after : ∀ t ≥ finalTime, computeValue t = finalValue
  start : ContinuousAt computeValue initialTime
  stop : ContinuousAt computeValue finalTime
  derivatives : ∀ t, initialTime < t → t < finalTime → ∀ k : ℕ, 1 ≤ k → k ≤ 3 →
    ∃ v, computeDerivative t k = some v ∧ HasDerivative k computeValue t v

def ScalarCubicTrajectory.Consistent (t : ScalarCubicTrajectory ℝ) : Prop :=
  Trajectories.Consistent t.computeValue t.computeDerivative t.getInitialTime t.getFinalTime t.initialValue t.finalValue

def ScalarSVAJTrajectory.Consistent (t : ScalarSVAJTrajectory ℝ) : Prop :=
  Trajectories.Consistent t.computeValue t.computeDerivative t.getInitialTime t.getFinalTime t.initialValue t.finalValue

variable {computeDerivative : ℝ → ℤ → Option ℝ} {p : ℝ[X]} {a T first last rate : ℝ} {solve : Solve ℝ}

/-- A curve whose derivatives are right for a start at time zero, and zero while it rests. -/
theorem consistent_iff (nonneg : 0 ≤ T) (ends : 0 < T → p.eval 0 = first ∧ p.eval T = last) (still : T = 0 → first = last)
    (within : ∀ t, 0 ≤ t → t < T → ∀ k : ℕ, 1 ≤ k → k ≤ 3 → computeDerivative t k = some ((derivative^[k] p).eval t))
    (rests : ∀ t, t < 0 ∨ T ≤ t → computeDerivative t 2 = some 0) (moves : 0 < T → derivative^[2] p ≠ 0) :
    Consistent (ride p a T first last) computeDerivative a (a + T) first last ↔ a = 0 ∨ T = 0 := by
  have continuous : Continuous (ride p a T first last) := ride_continuous nonneg ends still
  constructor
  · intro consistent
    by_contra other
    push Not at other
    have positive : 0 < T := lt_of_le_of_ne nonneg (Ne.symm other.2)
    obtain ⟨b, c, less, outside⟩ := exists_outside other.1 positive
    -- the second derivative that is given is zero for a while
    refine moves positive (eq_zero_of_eval (a := a) less fun t after before => ?_)
    obtain ⟨inside, rest⟩ := outside t after before
    obtain ⟨v, given, true⟩ := consistent.derivatives t inside.1 inside.2 2 (by decide) (by decide)
    have zero : v = 0 := by
      have answer := rests t rest
      rw [Nat.cast_ofNat, answer, Option.some.injEq] at given
      exact given.symm
    rw [zero] at true
    exact (ride_hasDerivative 2 inside.1 inside.2).unique true
  · intro fits
    refine ⟨fun t => ride_before, fun t => ride_after nonneg, continuous.continuousAt, continuous.continuousAt, ?_⟩
    intro t after before k low high
    have zero : a = 0 := by
      rcases fits with zero | none
      · exact zero
      · linarith
    have moving : HasDerivative k (ride p a T first last) t _ := ride_hasDerivative k after before
    rw [zero, sub_zero] at moving
    rw [zero] at after before ⊢
    exact ⟨_, within t after.le (by linarith) k low high, moving⟩

/-! ### The cubic -/

/-- The polynomial with the coefficients. -/
noncomputable def cubic (c : Fin 4 → ℝ) : ℝ[X] := C (c 0) + C (c 1) * X + C (c 2) * X ^ 2 + C (c 3) * X ^ 3

theorem cubic_eval (c : Fin 4 → ℝ) (t : ℝ) : (cubic c).eval t = c 0 + t * (c 1 + t * (c 2 + t * c 3)) := by
  simp only [cubic, eval_add, eval_mul, eval_pow, eval_C, eval_X]
  ring

theorem cubic_derivative (c : Fin 4 → ℝ) (t : ℝ) : (derivative (cubic c)).eval t = c 1 + t * (2 * c 2 + t * 3 * c 3) := by
  simp [cubic]
  ring

theorem cubic_derivative_two (c : Fin 4 → ℝ) (t : ℝ) : (derivative^[2] (cubic c)).eval t = 2 * c 2 + 6 * c 3 * t := by
  simp [cubic]
  ring

theorem cubic_derivative_three (c : Fin 4 → ℝ) (t : ℝ) : (derivative^[3] (cubic c)).eval t = 6 * c 3 := by
  simp [cubic]
  ring

theorem det_cubicMatrix (tf : ℝ) : (cubicMatrix 0 tf).det = -tf ^ 4 := by
  simp [cubicMatrix, Matrix.det_succ_row_zero, Fin.sum_univ_succ, Fin.succAbove]
  ring

theorem mulVec_cubicMatrix (tf : ℝ) (c : Fin 4 → ℝ) : (cubicMatrix 0 tf).mulVec c =
    ![c 0, c 0 + tf * c 1 + tf ^ 2 * c 2 + tf ^ 3 * c 3, c 1, c 1 + 2 * tf * c 2 + 3 * tf ^ 2 * c 3] := by
  ext i
  fin_cases i <;> simp [cubicMatrix, Matrix.mulVec, dotProduct, Fin.sum_univ_succ] <;> ring

/-- A cubic with these values and rates at the times zero and `tf`. -/
structure Meets (c : Fin 4 → ℝ) (tf v₀ v₁ r₀ r₁ : ℝ) : Prop where
  start : (cubic c).eval 0 = v₀
  stop : (cubic c).eval tf = v₁
  startRate : (derivative (cubic c)).eval 0 = r₀
  stopRate : (derivative (cubic c)).eval tf = r₁

/-- The coefficients that are found. -/
theorem meets_solve (exact : Solves solve) {tf : ℝ} (positive : 0 < tf) (v₀ v₁ r₀ r₁ : ℝ) :
    Meets (solve (cubicMatrix 0 tf) ![v₀, v₁, r₀, r₁]) tf v₀ v₁ r₀ r₁ := by
  have regular : (cubicMatrix 0 tf).det ≠ 0 := by
    rw [det_cubicMatrix]
    exact neg_ne_zero.mpr (pow_ne_zero 4 (ne_of_gt positive))
  have solved := exact _ ![v₀, v₁, r₀, r₁] regular
  generalize solve (cubicMatrix 0 tf) ![v₀, v₁, r₀, r₁] = c at solved ⊢
  rw [mulVec_cubicMatrix] at solved
  have start : c 0 = v₀ := congrFun solved 0
  have stop : c 0 + tf * c 1 + tf ^ 2 * c 2 + tf ^ 3 * c 3 = v₁ := congrFun solved 1
  have startRate : c 1 = r₀ := congrFun solved 2
  have stopRate : c 1 + 2 * tf * c 2 + 3 * tf ^ 2 * c 3 = r₁ := congrFun solved 3
  constructor
  · rw [cubic_eval, zero_mul, add_zero, start]
  · rw [cubic_eval, ← stop]
    ring
  · rw [cubic_derivative, zero_mul, add_zero, startRate]
  · rw [cubic_derivative, ← stopRate]
    ring

/-- A cubic without a second derivative is a straight line. -/
theorem Meets.straight {c : Fin 4 → ℝ} {tf v₀ v₁ r₀ r₁ : ℝ} (meets : Meets c tf v₀ v₁ r₀ r₁)
    (flat : derivative^[2] (cubic c) = 0) : r₀ = r₁ ∧ v₁ = v₀ + tf * r₀ := by
  have two : c 2 = 0 := by
    have zero := cubic_derivative_two c 0
    rw [flat, eval_zero] at zero
    linarith
  have three : c 3 = 0 := by
    have one := cubic_derivative_two c 1
    rw [flat, eval_zero, two] at one
    linarith
  obtain ⟨start, stop, startRate, stopRate⟩ := meets
  rw [cubic_eval, two, three] at start stop
  rw [cubic_derivative, two, three] at startRate stopRate
  have rate : c 1 = r₀ := by linarith
  constructor
  · linarith
  · rw [← start, ← stop, rate]
    ring

namespace ScalarCubicTrajectory

variable {t : ScalarCubicTrajectory ℝ}

theorem computeValue_eq (t : ScalarCubicTrajectory ℝ) :
    t.computeValue = ride (cubic t.coefficients) t.initialTime t.timePeriod t.initialValue t.finalValue := by
  funext time
  rw [computeValue, ride, cubic_eval]

theorem computeDerivative_within (t : ScalarCubicTrajectory ℝ) {time : ℝ} (start : 0 ≤ time) (stop : time < t.timePeriod)
    {k : ℕ} (low : 1 ≤ k) (high : k ≤ 3) :
    t.computeDerivative time k = some ((derivative^[k] (cubic t.coefficients)).eval time) := by
  rw [computeDerivative, if_neg (not_lt.mpr start), if_neg (not_le.mpr stop)]
  interval_cases k
  · rw [Function.iterate_one, cubic_derivative]
    rfl
  · rw [cubic_derivative_two]
    rfl
  · rw [cubic_derivative_three]
    rfl

theorem computeDerivative_outside (t : ScalarCubicTrajectory ℝ) {time : ℝ} (outside : time < 0 ∨ t.timePeriod ≤ time) :
    t.computeDerivative time 2 = some 0 := by
  rw [computeDerivative]
  by_cases early : time < 0
  · rw [if_pos early]
    rfl
  · rw [if_neg early, if_pos (outside.resolve_left early)]
    rfl

variable (solve) (initialValue finalValue initialTime initialRate : ℝ) (avgRate : Rate ℝ)

theorem timePeriod_nonneg : 0 ≤ (init solve initialValue finalValue initialTime initialRate avgRate).timePeriod :=
  div_nonneg (abs_nonneg _) avgRate.2.le

theorem timePeriod_eq_zero :
    (init solve initialValue finalValue initialTime initialRate avgRate).timePeriod = 0 ↔ initialValue = finalValue := by
  have positive : (avgRate : ℝ) ≠ 0 := ne_of_gt avgRate.2
  rw [init, div_eq_zero_iff, or_iff_left positive, abs_eq_zero, sub_eq_zero, eq_comm]

/-- The derivatives of a cubic are right where its start is at time zero, or it does not move. -/
theorem init_consistent (exact : Solves solve) :
    (init solve initialValue finalValue initialTime initialRate avgRate).Consistent ↔ initialTime = 0 ∨ initialValue = finalValue := by
  let t := init solve initialValue finalValue initialTime initialRate avgRate
  have period : t.timePeriod = 0 ↔ initialValue = finalValue := timePeriod_eq_zero ..
  have meets : 0 < t.timePeriod → Meets t.coefficients t.timePeriod initialValue finalValue initialRate 0 := by
    intro positive
    have coefficients : t.coefficients = solve (cubicMatrix 0 t.timePeriod) ![initialValue, finalValue, initialRate, 0] :=
      if_neg fun same => ne_of_gt positive (period.mpr same)
    rw [coefficients]
    exact meets_solve exact positive ..
  rw [← period, ScalarCubicTrajectory.Consistent, computeValue_eq]
  refine consistent_iff (timePeriod_nonneg ..) (fun positive => ⟨(meets positive).start, (meets positive).stop⟩) period.mp
    (fun time start stop k => computeDerivative_within t start stop) (fun time => computeDerivative_outside t) ?_
  intro positive flat
  obtain ⟨rest, line⟩ := (meets positive).straight flat
  -- a straight line that ends at rest is at rest
  rw [rest, mul_zero, add_zero] at line
  exact ne_of_gt positive (period.mpr line.symm)

end ScalarCubicTrajectory

/-! ### The polynomial of degree seven -/

namespace ScalarSVAJTrajectory

/-- The polynomial with the coefficients, over the part of the time that is complete. -/
noncomputable def septic (t : ScalarSVAJTrajectory ℝ) : ℝ[X] :=
  let it := 1 / t.timePeriod
  C t.initialValue + C (t.finalValue - t.initialValue) *
    (C (t.cp * it ^ 4) * X ^ 4 + C (t.cq * it ^ 5) * X ^ 5 + C (t.cr * it ^ 6) * X ^ 6 + C (t.cs * it ^ 7) * X ^ 7)

variable (t : ScalarSVAJTrajectory ℝ) {time : ℝ}

theorem septic_eval (time : ℝ) : t.septic.eval time = t.initialValue + (t.finalValue - t.initialValue) *
    (t.cp * (time / t.timePeriod) ^ 4 + t.cq * (time / t.timePeriod) ^ 5 + t.cr * (time / t.timePeriod) ^ 6 +
      t.cs * (time / t.timePeriod) ^ 7) := by
  simp only [septic, eval_add, eval_mul, eval_pow, eval_C, eval_X]
  ring

theorem computeValue_eq : t.computeValue = ride t.septic t.initialTime t.timePeriod t.initialValue t.finalValue := by
  funext time
  rw [computeValue, ride, septic_eval]

theorem septic_derivative (time : ℝ) : (derivative t.septic).eval time =
    (t.finalValue - t.initialValue) * (1 / t.timePeriod) * (t.cp * 4 * (time / t.timePeriod) ^ 3 +
      t.cq * 5 * (time / t.timePeriod) ^ 4 + t.cr * 6 * (time / t.timePeriod) ^ 5 + t.cs * 7 * (time / t.timePeriod) ^ 6) := by
  simp [septic]
  ring

theorem septic_derivative_two (time : ℝ) : (derivative^[2] t.septic).eval time =
    (t.finalValue - t.initialValue) * (1 / t.timePeriod) ^ 2 * (t.cp * 12 * (time / t.timePeriod) ^ 2 +
      t.cq * 20 * (time / t.timePeriod) ^ 3 + t.cr * 30 * (time / t.timePeriod) ^ 4 + t.cs * 42 * (time / t.timePeriod) ^ 5) := by
  simp [septic]
  ring

theorem septic_derivative_three (time : ℝ) : (derivative^[3] t.septic).eval time =
    (t.finalValue - t.initialValue) * (1 / t.timePeriod) ^ 3 * (t.cp * 24 * (time / t.timePeriod) +
      t.cq * 60 * (time / t.timePeriod) ^ 2 + t.cr * 120 * (time / t.timePeriod) ^ 3 + t.cs * 210 * (time / t.timePeriod) ^ 4) := by
  simp [septic]
  ring

theorem computeDerivative_within (start : 0 ≤ time) (stop : time < t.timePeriod) {k : ℕ} (low : 1 ≤ k) (high : k ≤ 3) :
    t.computeDerivative time k = some ((derivative^[k] t.septic).eval time) := by
  rw [computeDerivative, if_neg (not_lt.mpr start), if_neg (not_le.mpr stop)]
  interval_cases k
  · rw [Function.iterate_one, septic_derivative]
    rfl
  · rw [septic_derivative_two]
    rfl
  · rw [septic_derivative_three]
    rfl

theorem computeDerivative_outside (outside : time < 0 ∨ t.timePeriod ≤ time) : t.computeDerivative time 2 = some 0 := by
  rw [computeDerivative]
  by_cases early : time < 0
  · rw [if_pos early]
    rfl
  · rw [if_neg early, if_pos (outside.resolve_left early)]
    rfl

variable (initialValue finalValue initialTime initialRate : ℝ) (maxRate : Rate ℝ)

theorem init_coefficients : let t := init initialValue finalValue initialTime initialRate maxRate
    t.cp = 35 ∧ t.cq = -84 ∧ t.cr = 70 ∧ t.cs = -20 := by
  norm_num [init]

theorem timePeriod_nonneg : 0 ≤ (init initialValue finalValue initialTime initialRate maxRate).timePeriod :=
  div_nonneg (mul_nonneg (by norm_num) (abs_nonneg _)) maxRate.2.le

theorem timePeriod_eq_zero :
    (init initialValue finalValue initialTime initialRate maxRate).timePeriod = 0 ↔ initialValue = finalValue := by
  have positive : (maxRate : ℝ) ≠ 0 := ne_of_gt maxRate.2
  have factor : (35 / 16 : ℝ) ≠ 0 := by norm_num
  rw [init, div_eq_zero_iff, or_iff_left positive, mul_eq_zero, or_iff_right factor, abs_eq_zero, sub_eq_zero, eq_comm]

/-- The same for the polynomial of degree seven. -/
theorem init_consistent :
    (init initialValue finalValue initialTime initialRate maxRate).Consistent ↔ initialTime = 0 ∨ initialValue = finalValue := by
  let t := init initialValue finalValue initialTime initialRate maxRate
  have period : t.timePeriod = 0 ↔ initialValue = finalValue := timePeriod_eq_zero ..
  obtain ⟨cp, cq, cr, cs⟩ : t.cp = 35 ∧ t.cq = -84 ∧ t.cr = 70 ∧ t.cs = -20 := init_coefficients ..
  rw [← period, ScalarSVAJTrajectory.Consistent, computeValue_eq]
  refine consistent_iff (timePeriod_nonneg ..) (fun positive => ⟨?_, ?_⟩) period.mp
    (fun time start stop k => computeDerivative_within t start stop) (fun time => computeDerivative_outside t) ?_
  · rw [septic_eval, zero_div]
    ring
  · rw [septic_eval, div_self (ne_of_gt positive), cp, cq, cr, cs]
    ring
  · intro positive flat
    have nonzero : t.timePeriod ≠ 0 := ne_of_gt positive
    have quarter := t.septic_derivative_two (t.timePeriod / 4)
    rw [flat, eval_zero, cp, cq, cr, cs, div_div_cancel_left' nonzero] at quarter
    have change : t.finalValue - t.initialValue = 0 := by
      field_simp at quarter
      linarith
    exact nonzero (period.mpr (sub_eq_zero.mp change).symm)

end ScalarSVAJTrajectory

/-- A start at another time than zero shifts the value, but not the derivatives. -/
theorem trajectories_consistent (exact : Solves solve) (initialValue finalValue initialTime initialRate : ℝ)
    (avgRate maxRate : Rate ℝ) :
    ((ScalarCubicTrajectory.init solve initialValue finalValue initialTime initialRate avgRate).Consistent ↔
      initialTime = 0 ∨ initialValue = finalValue) ∧
    ((ScalarSVAJTrajectory.init initialValue finalValue initialTime initialRate maxRate).Consistent ↔
      initialTime = 0 ∨ initialValue = finalValue) :=
  ⟨ScalarCubicTrajectory.init_consistent solve initialValue finalValue initialTime initialRate avgRate exact,
    ScalarSVAJTrajectory.init_consistent initialValue finalValue initialTime initialRate maxRate⟩

theorem solves_inverse : Solves fun (A : Matrix (Fin 4) (Fin 4) ℝ) b => A⁻¹.mulVec b := by
  intro A b regular
  rw [Matrix.mulVec_mulVec, A.mul_nonsing_inv (isUnit_iff_ne_zero.mpr regular), Matrix.one_mulVec]

theorem trajectories_consistent_inverse :
    (ScalarCubicTrajectory.init (fun A b => A⁻¹.mulVec b) (2 : ℝ) 5 0 0 ⟨1 / 2, by norm_num⟩).Consistent :=
  (trajectories_consistent solves_inverse 2 5 0 0 ⟨1 / 2, by norm_num⟩ ⟨1, one_pos⟩).1.mpr (.inl rfl)

/-- From zero to one in the second after the time one: half way there the rate is `35 / 16`, not zero. -/
theorem trajectories_late :
    let t := ScalarSVAJTrajectory.init (0 : ℝ) 1 1 0 ⟨35 / 16, by norm_num⟩
    t.computeDerivative (3 / 2) 1 = some 0 ∧ HasDerivative 1 t.computeValue (3 / 2) (35 / 16) ∧ ¬ t.Consistent := by
  intro t
  have period : t.timePeriod = 1 := by
    simp [t, ScalarSVAJTrajectory.init]
  obtain ⟨cp, cq, cr, cs⟩ : t.cp = 35 ∧ t.cq = -84 ∧ t.cr = 70 ∧ t.cs = -20 := ScalarSVAJTrajectory.init_coefficients ..
  have given : t.computeDerivative (3 / 2) 1 = some 0 := by
    rw [ScalarSVAJTrajectory.computeDerivative, period]
    norm_num [restDerivative, t, ScalarSVAJTrajectory.init]
  have moving : HasDerivative 1 t.computeValue (3 / 2) (35 / 16) := by
    have rate : (derivative^[1] t.septic).eval (3 / 2 - 1) = 35 / 16 := by
      rw [Function.iterate_one, ScalarSVAJTrajectory.septic_derivative, period, cp, cq, cr, cs]
      norm_num [t, ScalarSVAJTrajectory.init]
    rw [← rate, ScalarSVAJTrajectory.computeValue_eq, period]
    exact ride_hasDerivative 1 (show (1 : ℝ) < 3 / 2 by norm_num) (show (3 / 2 : ℝ) < 1 + 1 by norm_num)
  refine ⟨given, moving, fun consistent => ?_⟩
  obtain ⟨v, some, true⟩ := consistent.derivatives (3 / 2) (show (1 : ℝ) < 3 / 2 by norm_num)
    (show (3 / 2 : ℝ) < 1 + t.timePeriod by rw [period]; norm_num) 1 le_rfl (by decide)
  have zero : v = 0 := Option.some.inj (some.symm.trans given)
  rw [zero] at true
  exact absurd (true.unique moving) (by norm_num)

end Tortuga.Trajectories
