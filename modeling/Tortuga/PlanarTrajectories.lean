import Tortuga.Geometry
import Tortuga.Trajectories

/-!
The trajectories of the motions in the plane (`ram/motion/trajectories.py`), in exact arithmetic: a
cubic along a line, a constant velocity, and a constant acceleration.
-/
namespace Tortuga.PlanarTrajectories
open scoped Tortuga.Numerals
open Tortuga.Curves Tortuga.Geometry Tortuga.Trajectories Polynomial Topology

/-- What Python raises. -/
inductive Raised
  | zeroDivisionError
  | typeError
  deriving DecidableEq

section
variable {K : Type} [Field K] [LinearOrder K]

/-- `_projectOntoAxes`: along `changeV`, which is `changeS` long. -/
def projectOntoAxes (changeV : Vector2 K) (changeS scalar : K) : Vector2 K :=
  ⟨scalar * changeV.x / changeS, scalar * changeV.y / changeS⟩

structure Vector2CubicTrajectory (K : Type) where
  initialValue : Vector2 K
  finalValue : Vector2 K
  changeInValueV : Vector2 K
  changeInValueS : K
  initialRate : Vector2 K
  finalRate : Vector2 K
  changeInRateV : Vector2 K
  changeInRateS : K
  initialTime : K
  timePeriod : K
  finalTime : K
  coefficients : Fin 4 → K

namespace Vector2CubicTrajectory

/-- `__init__`. -/
def init (sqrt : K → K) (solve : Solve K) (initialValue finalValue : Vector2 K) (initialTime : K) (initialRate : Vector2 K)
    (avgRate : Rate K) : Vector2CubicTrajectory K :=
  let changeInValueV := finalValue - initialValue
  let changeInValueS := changeInValueV.length sqrt
  let changeInRateV := 0 - initialRate
  let changeInRateS := changeInRateV.length sqrt
  let timePeriod := changeInValueV.length sqrt / avgRate
  { initialValue := initialValue
    finalValue := finalValue
    changeInValueV := changeInValueV
    changeInValueS := changeInValueS
    initialRate := initialRate
    finalRate := 0
    changeInRateV := changeInRateV
    changeInRateS := changeInRateS
    initialTime := initialTime
    timePeriod := timePeriod
    finalTime := initialTime + timePeriod
    coefficients :=
      if initialValue = finalValue then ![0, 0, 0, 0]
      else solve (cubicMatrix 0 timePeriod) ![0, changeInValueS, 0, changeInRateS] }

def computeValue (t : Vector2CubicTrajectory K) (time : K) : Except Raised (Vector2 K) :=
  let ts := time - t.initialTime
  if ts < 0 then .ok t.initialValue
  else if ts ≥ t.timePeriod then .ok t.finalValue
  else
    let c := t.coefficients
    let v := projectOntoAxes t.changeInValueV t.changeInValueS (c 0 + ts * (c 1 + ts * (c 2 + ts * c 3)))
    .ok ⟨v.x + t.initialValue.x, v.y + t.initialValue.y⟩

/-- What is answered before and after the polynomial. -/
def restDerivative (rate : Vector2 K) (order : ℤ) : Option (Vector2 K) :=
  if order = 1 then some rate else if 1 < order then some 0 else none

/-- The third derivative would project a pair onto the axes. -/
def computeDerivative (t : Vector2CubicTrajectory K) (time : K) (order : ℤ) : Except Raised (Option (Vector2 K)) :=
  if time < 0 then .ok (restDerivative t.initialRate order)
  else if time ≥ t.timePeriod then .ok (restDerivative t.finalRate order)
  else
    let c := t.coefficients
    if order < 1 then .ok none
    else if order = 1 then
      let v := projectOntoAxes t.changeInValueV t.changeInValueS (c 1 + time * (2 * c 2 + time * 3 * c 3))
      .ok (some ⟨v.x + t.initialRate.x, v.y + t.initialRate.y⟩)
    else if order = 2 then .ok (some (projectOntoAxes t.changeInValueV t.changeInValueS (2 * c 2 + 6 * c 3 * time)))
    else if order = 3 then .error .typeError
    else .ok (some 0)

def getInitialTime (t : Vector2CubicTrajectory K) : K := t.initialTime

def getFinalTime (t : Vector2CubicTrajectory K) : K := t.finalTime

end Vector2CubicTrajectory

structure Vector2VelocityTrajectory (K : Type) where
  initialValue : Vector2 K
  velocity : Vector2 K
  maxTime : K
  initialTime : K
  finalTime : K
  finalValue : Vector2 K

namespace Vector2VelocityTrajectory

/-- `__init__`. -/
def init (sqrt : K → K) (velocity initialPosition : Vector2 K) (maxDistance initialTime : K) :
    Except Raised (Vector2VelocityTrajectory K) :=
  if velocity.length sqrt = 0 then .error .zeroDivisionError
  else
    let timeFromDistance := maxDistance / velocity.length sqrt
    .ok
      { initialValue := initialPosition
        velocity := velocity
        maxTime := timeFromDistance
        initialTime := initialTime
        finalTime := initialTime + timeFromDistance
        finalValue := initialPosition + ⟨timeFromDistance * velocity.x, timeFromDistance * velocity.y⟩ }

def computeValue (t : Vector2VelocityTrajectory K) (time : K) : Vector2 K :=
  if time ≤ t.initialTime then t.initialValue
  else if time ≥ t.finalTime then t.finalValue
  else t.initialValue + t.velocity.scale (time - t.initialTime)

def computeDerivative (t : Vector2VelocityTrajectory K) (time : K) (order : ℤ) : Vector2 K :=
  if order = 1 then
    if time ≤ t.initialTime then 0
    else if time ≥ t.finalTime then 0
    else t.velocity
  else 0

def getInitialTime (t : Vector2VelocityTrajectory K) : K := t.initialTime

def getFinalTime (t : Vector2VelocityTrajectory K) : K := t.finalTime

end Vector2VelocityTrajectory

structure Vector2ConstAccelTrajectory (K : Type) where
  initialValue : Vector2 K
  initialRate : Vector2 K
  finalRate : Vector2 K
  initialTime : K
  accel : K
  changeInRateV : Vector2 K
  changeInRateS : K
  timePeriod : K
  finalTime : K

namespace Vector2ConstAccelTrajectory

/-- `__init__`. -/
def init (sqrt : K → K) (initialValue initialRate finalRate : Vector2 K) (accel : Rate K) (initialTime : K) :
    Vector2ConstAccelTrajectory K :=
  let changeInRateV := finalRate - initialRate
  let changeInRateS := changeInRateV.length sqrt
  let timePeriod := changeInRateS / accel
  { initialValue := initialValue
    initialRate := initialRate
    finalRate := finalRate
    initialTime := initialTime
    accel := accel
    changeInRateV := changeInRateV
    changeInRateS := changeInRateS
    timePeriod := timePeriod
    finalTime := initialTime + timePeriod }

/-- `_projectOntoAxes`, here with numbers of Python. -/
def project (t : Vector2ConstAccelTrajectory K) (scalar : K) : Except Raised (Vector2 K) :=
  if t.changeInRateS = 0 then .error .zeroDivisionError
  else .ok (projectOntoAxes t.changeInRateV t.changeInRateS scalar)

def computeValue (t : Vector2ConstAccelTrajectory K) (time : K) : Except Raised (Vector2 K) :=
  if time < t.initialTime then .ok t.initialValue
  else
    let timestep := time - t.initialTime
    t.project (1 / 2 * t.accel * timestep * timestep)

def computeDerivative (t : Vector2ConstAccelTrajectory K) (time : K) (order : ℤ) : Except Raised (Option (Vector2 K)) :=
  if time < t.initialTime then
    if order = 1 then .ok (some t.initialRate) else .ok none
  else if time < t.finalTime then
    let timestep := time - t.initialTime
    if order = 1 then some <$> t.project (t.accel * timestep)
    else if order = 2 then some <$> t.project t.accel
    else .ok (some 0)
  else if order = 1 then .ok (some t.finalRate) else .ok (some 0)

def getInitialTime (t : Vector2ConstAccelTrajectory K) : K := t.initialTime

def getFinalTime (t : Vector2ConstAccelTrajectory K) : K := t.finalTime

end Vector2ConstAccelTrajectory

end

/-! ### What is promised -/

/-- Both coordinates have the derivative. -/
def HasDerivative₂ (k : ℕ) (value : ℝ → Vector2 ℝ) (t : ℝ) (v : Vector2 ℝ) : Prop :=
  HasDerivative k (fun s => (value s).x) t v.x ∧ HasDerivative k (fun s => (value s).y) t v.y

/-- A trajectory in the plane with the values and derivatives that it should have. -/
structure Follows (value : ℝ → Vector2 ℝ) (computeDerivative : ℝ → ℤ → Except Raised (Option (Vector2 ℝ)))
    (initialTime finalTime : ℝ) (initialValue : Vector2 ℝ) (finalValue : Option (Vector2 ℝ)) : Prop where
  start : value initialTime = initialValue
  continuous_x : Continuous fun t => (value t).x
  continuous_y : Continuous fun t => (value t).y
  stop : ∀ v ∈ finalValue, value finalTime = v
  derivatives : ∀ t, initialTime < t → t < finalTime → ∀ k : ℕ, 1 ≤ k → k ≤ 2 →
    ∃ v, computeDerivative t k = .ok (some v) ∧ HasDerivative₂ k value t v

def Vector2CubicTrajectory.Consistent (t : Vector2CubicTrajectory ℝ) : Prop :=
  ∃ value, (∀ time, t.computeValue time = .ok (value time)) ∧
    Follows value t.computeDerivative t.getInitialTime t.getFinalTime t.initialValue (some t.finalValue)

def Vector2VelocityTrajectory.Consistent (t : Vector2VelocityTrajectory ℝ) : Prop :=
  Follows t.computeValue (fun time order => .ok (some (t.computeDerivative time order))) t.getInitialTime t.getFinalTime
    t.initialValue (some t.finalValue)

/-- It has no final value. -/
def Vector2ConstAccelTrajectory.Consistent (t : Vector2ConstAccelTrajectory ℝ) : Prop :=
  ∃ value, (∀ time, t.computeValue time = .ok (value time)) ∧
    Follows value t.computeDerivative t.getInitialTime t.getFinalTime t.initialValue none

theorem HasDerivative₂.unique {k : ℕ} {value : ℝ → Vector2 ℝ} {t : ℝ} {v w : Vector2 ℝ} (derivative : HasDerivative₂ k value t v)
    (other : HasDerivative₂ k value t w) : v = w :=
  Vector2.ext (derivative.1.unique other.1) (derivative.2.unique other.2)

/-! ### The cubic -/

/-- A coordinate of a polynomial along a line. -/
noncomputable def along (value slope : ℝ) (p : ℝ[X]) : ℝ[X] := C value + C slope * p

theorem along_eval (value slope : ℝ) (p : ℝ[X]) (t : ℝ) : (along value slope p).eval t = value + slope * p.eval t := by
  simp [along]

theorem along_derivative (value slope : ℝ) (p : ℝ[X]) {k : ℕ} (low : 1 ≤ k) :
    derivative^[k] (along value slope p) = C slope * derivative^[k] p := by
  rw [along, iterate_map_add, iterate_derivative_C low, zero_add, iterate_derivative_C_mul]

namespace Vector2CubicTrajectory

variable {t : Vector2CubicTrajectory ℝ} {time : ℝ}

/-- The two polynomials of the path. -/
noncomputable def pathX (t : Vector2CubicTrajectory ℝ) : ℝ[X] :=
  along t.initialValue.x (t.changeInValueV.x / t.changeInValueS) (cubic t.coefficients)

noncomputable def pathY (t : Vector2CubicTrajectory ℝ) : ℝ[X] :=
  along t.initialValue.y (t.changeInValueV.y / t.changeInValueS) (cubic t.coefficients)

noncomputable def value (t : Vector2CubicTrajectory ℝ) (time : ℝ) : Vector2 ℝ :=
  ⟨ride t.pathX t.initialTime t.timePeriod t.initialValue.x t.finalValue.x time,
    ride t.pathY t.initialTime t.timePeriod t.initialValue.y t.finalValue.y time⟩

theorem computeValue_eq (t : Vector2CubicTrajectory ℝ) (time : ℝ) : t.computeValue time = .ok (t.value time) := by
  rw [computeValue, value, ride, ride]
  by_cases early : time - t.initialTime < 0
  · simp only [if_pos early]
  · by_cases past : t.timePeriod ≤ time - t.initialTime
    · simp only [if_neg early, if_pos past]
    · simp only [if_neg early, if_neg past, pathX, pathY, along_eval, cubic_eval, projectOntoAxes]
      congr 2 <;> ring

/-- The first derivative has the initial rate on top. -/
theorem computeDerivative_one (start : 0 ≤ time) (stop : time < t.timePeriod) : t.computeDerivative time 1 =
    .ok (some ⟨(derivative^[1] t.pathX).eval time + t.initialRate.x, (derivative^[1] t.pathY).eval time + t.initialRate.y⟩) := by
  rw [computeDerivative, if_neg (not_lt.mpr start), if_neg (not_le.mpr stop)]
  simp only [pathX, pathY, along_derivative _ _ _ le_rfl, Function.iterate_one, eval_C_mul, cubic_derivative, projectOntoAxes]
  rw [if_neg (by decide), if_pos trivial]
  congr 3 <;> ring

theorem computeDerivative_two (start : 0 ≤ time) (stop : time < t.timePeriod) : t.computeDerivative time 2 =
    .ok (some ⟨(derivative^[2] t.pathX).eval time, (derivative^[2] t.pathY).eval time⟩) := by
  rw [computeDerivative, if_neg (not_lt.mpr start), if_neg (not_le.mpr stop)]
  simp only [pathX, pathY, along_derivative _ _ _ (show 1 ≤ 2 by decide), eval_C_mul, cubic_derivative_two, projectOntoAxes]
  rw [if_neg (by decide), if_neg (by decide), if_pos trivial]
  congr 3 <;> ring

theorem computeDerivative_outside (outside : time < 0 ∨ t.timePeriod ≤ time) : t.computeDerivative time 2 = .ok (some 0) := by
  rw [computeDerivative]
  by_cases early : time < 0
  · rw [if_pos early]
    rfl
  · rw [if_neg early, if_pos (outside.resolve_left early)]
    rfl

theorem value_hasDerivative (k : ℕ) (start : t.initialTime < time) (stop : time < t.initialTime + t.timePeriod) :
    HasDerivative₂ k t.value time
      ⟨(derivative^[k] t.pathX).eval (time - t.initialTime), (derivative^[k] t.pathY).eval (time - t.initialTime)⟩ :=
  ⟨ride_hasDerivative k start stop, ride_hasDerivative k start stop⟩

variable (sqrt : ℝ → ℝ) {solve : Solve ℝ} (initialValue finalValue : Vector2 ℝ) (initialTime : ℝ) (initialRate : Vector2 ℝ)
  (avgRate : Rate ℝ)

theorem timePeriod_nonneg : 0 ≤ (init Real.sqrt solve initialValue finalValue initialTime initialRate avgRate).timePeriod :=
  div_nonneg (Vector2.length_nonneg _) avgRate.2.le

theorem timePeriod_eq_zero :
    (init Real.sqrt solve initialValue finalValue initialTime initialRate avgRate).timePeriod = 0 ↔ initialValue = finalValue := by
  have positive : (avgRate : ℝ) ≠ 0 := ne_of_gt avgRate.2
  rw [init, div_eq_zero_iff, or_iff_left positive, Vector2.length_eq_zero, Vector2.sub_eq_zero_iff, eq_comm]

/-- A path of some length, with what the constructor finds for it. -/
structure Moving (t : Vector2CubicTrajectory ℝ) : Prop where
  length : t.changeInValueS ≠ 0
  period : 0 < t.timePeriod
  change : t.changeInValueV = t.finalValue - t.initialValue
  apart : t.initialValue ≠ t.finalValue
  meets : Meets t.coefficients t.timePeriod 0 t.changeInValueS 0 t.changeInRateS

theorem moving_init (exact : Solves solve) (other : initialValue ≠ finalValue) :
    Moving (init Real.sqrt solve initialValue finalValue initialTime initialRate avgRate) := by
  let t := init Real.sqrt solve initialValue finalValue initialTime initialRate avgRate
  have length : t.changeInValueS ≠ 0 := by
    intro none
    exact other (Vector2.sub_eq_zero_iff.mp (Vector2.length_eq_zero.mp none)).symm
  have period : 0 < t.timePeriod :=
    lt_of_le_of_ne (timePeriod_nonneg ..) fun none => other ((timePeriod_eq_zero ..).mp none.symm)
  refine ⟨length, period, rfl, other, ?_⟩
  have coefficients : t.coefficients = solve (cubicMatrix 0 t.timePeriod) ![0, t.changeInValueS, 0, t.changeInRateS] := if_neg other
  change Meets t.coefficients t.timePeriod 0 t.changeInValueS 0 t.changeInRateS
  rw [coefficients]
  exact meets_solve exact period ..

theorem Moving.ends (moving : Moving t) : (t.pathX.eval 0 = t.initialValue.x ∧ t.pathX.eval t.timePeriod = t.finalValue.x) ∧
    (t.pathY.eval 0 = t.initialValue.y ∧ t.pathY.eval t.timePeriod = t.finalValue.y) := by
  have length := moving.length
  simp only [pathX, pathY, along_eval, moving.meets.start, moving.meets.stop, moving.change, mul_zero, add_zero, true_and]
  constructor <;> · simp [div_mul_cancel₀ _ length]

/-- No polynomial of the path is straight in both coordinates. -/
theorem Moving.bends (moving : Moving t) : ¬ (derivative^[2] t.pathX = 0 ∧ derivative^[2] t.pathY = 0) := by
  rintro ⟨flatX, flatY⟩
  rw [pathX, along_derivative _ _ _ (by decide), mul_eq_zero, C_eq_zero, div_eq_zero_iff, or_iff_left moving.length] at flatX
  rw [pathY, along_derivative _ _ _ (by decide), mul_eq_zero, C_eq_zero, div_eq_zero_iff, or_iff_left moving.length] at flatY
  by_cases straight : derivative^[2] (cubic t.coefficients) = 0
  · obtain ⟨-, line⟩ := moving.meets.straight straight
    exact moving.length (by rw [line]; ring)
  · have still : t.changeInValueV = 0 := Vector2.ext (flatX.resolve_right straight) (flatY.resolve_right straight)
    rw [moving.change] at still
    exact moving.apart (Vector2.sub_eq_zero_iff.mp still).symm

theorem follows_continuous (nonneg : 0 ≤ t.timePeriod) (ends : 0 < t.timePeriod → Moving t)
    (still : t.timePeriod = 0 → t.initialValue = t.finalValue) :
    (Continuous fun time => (t.value time).x) ∧ Continuous fun time => (t.value time).y :=
  ⟨ride_continuous nonneg (fun positive => (ends positive).ends.1) fun none => congrArg Vector2.x (still none),
    ride_continuous nonneg (fun positive => (ends positive).ends.2) fun none => congrArg Vector2.y (still none)⟩

theorem value_start (nonneg : 0 ≤ t.timePeriod) (ends : 0 < t.timePeriod → Moving t)
    (still : t.timePeriod = 0 → t.initialValue = t.finalValue) : t.value t.initialTime = t.initialValue := by
  rcases nonneg.eq_or_lt' with none | positive
  · simp only [value, none, ← still none, ride_none]
  · have inside := lt_add_of_pos_right t.initialTime positive
    obtain ⟨ends_x, ends_y⟩ := (ends positive).ends
    simp only [value, ride_within le_rfl inside, sub_self, ends_x.1, ends_y.1]

section
variable {first : Vector2 ℝ} {last : Option (Vector2 ℝ)}

/-- Half way, a rate at the start is too much. -/
theorem Moving.at_rest (moving : Moving t) (zero : t.initialTime = 0)
    (follows : Follows t.value t.computeDerivative t.initialTime (t.initialTime + t.timePeriod) first last) : t.initialRate = 0 := by
  have half := half_pos moving.period
  have before : t.timePeriod / 2 < t.timePeriod := half_lt_self moving.period
  have started : t.initialTime < t.timePeriod / 2 := zero.trans_lt half
  have within : t.timePeriod / 2 < t.initialTime + t.timePeriod := by
    rw [zero, zero_add]
    exact before
  obtain ⟨v, some, true⟩ := follows.derivatives _ started within 1 le_rfl (by decide)
  have answer := Option.some.inj (Except.ok.inj (some.symm.trans (computeDerivative_one half.le before)))
  have rate := true.unique (value_hasDerivative 1 started within)
  rw [answer, zero, sub_zero, Vector2.ext_iff] at rate
  exact Vector2.ext (add_eq_left.mp rate.1) (add_eq_left.mp rate.2)

/-- After a late start the second derivative is given as zero for a while. -/
theorem Moving.in_time (moving : Moving t)
    (follows : Follows t.value t.computeDerivative t.initialTime (t.initialTime + t.timePeriod) first last) : t.initialTime = 0 := by
  by_contra zero
  obtain ⟨b, c, less, outside⟩ := exists_outside zero moving.period
  have flat (time : ℝ) (after : b < time) (earlier : time < c) :
      (⟨(derivative^[2] t.pathX).eval (time - t.initialTime), (derivative^[2] t.pathY).eval (time - t.initialTime)⟩ : Vector2 ℝ) = 0 := by
    obtain ⟨inside, rest⟩ := outside time after earlier
    obtain ⟨v, some, true⟩ := follows.derivatives time inside.1 inside.2 2 (by decide) le_rfl
    have answer := Option.some.inj (Except.ok.inj (some.symm.trans (computeDerivative_outside rest)))
    rw [← answer]
    exact (value_hasDerivative 2 inside.1 inside.2).unique true
  exact moving.bends
    ⟨eq_zero_of_eval less fun time after earlier => congrArg Vector2.x (flat time after earlier),
      eq_zero_of_eval less fun time after earlier => congrArg Vector2.y (flat time after earlier)⟩

end

/-- From time zero and from rest the derivatives are those of the path. -/
theorem derivative_right (zero : t.initialTime = 0) (rest : t.initialRate = 0) (after : t.initialTime < time)
    (before : time < t.initialTime + t.timePeriod) {k : ℕ} (low : 1 ≤ k) (high : k ≤ 2) :
    ∃ v, t.computeDerivative time k = .ok (some v) ∧ HasDerivative₂ k t.value time v := by
  have moving := value_hasDerivative k after before
  rw [zero, sub_zero] at moving
  have started : 0 ≤ time := (zero.symm.trans_lt after).le
  have going : time < t.timePeriod := by
    rw [zero, zero_add] at before
    exact before
  refine ⟨_, ?_, moving⟩
  interval_cases k
  · rw [Nat.cast_one, computeDerivative_one started going, rest, Vector2.zero_x, Vector2.zero_y, add_zero, add_zero]
  · exact computeDerivative_two started going

/-- The cubic is right where it does not move, or starts at time zero and at rest. -/
theorem init_consistent (exact : Solves solve) :
    (init Real.sqrt solve initialValue finalValue initialTime initialRate avgRate).Consistent ↔
      initialValue = finalValue ∨ initialTime = 0 ∧ initialRate = 0 := by
  let t := init Real.sqrt solve initialValue finalValue initialTime initialRate avgRate
  have nonneg : 0 ≤ t.timePeriod := timePeriod_nonneg ..
  have period : t.timePeriod = 0 ↔ initialValue = finalValue := timePeriod_eq_zero ..
  have moves (positive : 0 < t.timePeriod) : Moving t := moving_init _ _ _ _ _ exact fun same => ne_of_gt positive (period.mpr same)
  constructor
  · rintro ⟨value, given, follows⟩
    have same : value = t.value := by
      funext time
      exact Except.ok.inj ((given time).symm.trans (t.computeValue_eq time))
    rw [same] at follows
    by_cases other : initialValue = finalValue
    · exact .inl other
    · have moving := moves (lt_of_le_of_ne nonneg fun none => other (period.mp none.symm))
      have zero := moving.in_time follows
      exact .inr ⟨zero, moving.at_rest zero follows⟩
  · intro fits
    obtain ⟨continuous_x, continuous_y⟩ := follows_continuous nonneg moves period.mp
    refine ⟨t.value, t.computeValue_eq, value_start nonneg moves period.mp, continuous_x, continuous_y, ?_, ?_⟩
    · rintro v ⟨⟩
      exact Vector2.ext (ride_after nonneg le_rfl) (ride_after nonneg le_rfl)
    · intro time after before k low high
      have positive : 0 < t.timePeriod := (lt_add_iff_pos_right _).mp (after.trans before)
      obtain ⟨zero, rest⟩ := fits.resolve_left fun same => ne_of_gt positive (period.mpr same)
      exact derivative_right zero rest after before low high

end Vector2CubicTrajectory

/-! ### The constant velocity -/

theorem line_ends (v w T : ℝ) : (C v + C w * X).eval 0 = v ∧ (C v + C w * X).eval T = v + w * T := by
  simp

namespace Vector2VelocityTrajectory

/-- The attributes that the constructor leaves. -/
structure Made (t : Vector2VelocityTrajectory ℝ) : Prop where
  moves : t.velocity ≠ 0
  finalTime : t.finalTime = t.initialTime + t.maxTime
  finalValue : t.finalValue = t.initialValue + t.velocity.scale t.maxTime

variable {t : Vector2VelocityTrajectory ℝ} {time : ℝ}

/-- A coordinate of the position. -/
theorem computeValue_eq (made : Made t) (nonneg : 0 ≤ t.maxTime) (time : ℝ) : t.computeValue time =
    ⟨ride (C t.initialValue.x + C t.velocity.x * X) t.initialTime t.maxTime t.initialValue.x t.finalValue.x time,
      ride (C t.initialValue.y + C t.velocity.y * X) t.initialTime t.maxTime t.initialValue.y t.finalValue.y time⟩ := by
  rw [computeValue, made.finalTime]
  rcases lt_trichotomy time t.initialTime with early | rfl | started
  · rw [if_pos early.le, ride_before early, ride_before early]
  · rw [if_pos le_rfl]
    rcases nonneg.eq_or_lt' with none | positive
    · have still : t.finalValue = t.initialValue := by
        rw [made.finalValue, none]
        ext <;> simp
      rw [none, still, ride_none, ride_none]
    · have inside := lt_add_of_pos_right t.initialTime positive
      simp [ride_within le_rfl inside]
  · rw [if_neg (not_le.mpr started)]
    by_cases past : t.initialTime + t.maxTime ≤ time
    · rw [if_pos past, ride_after nonneg past, ride_after nonneg past]
    · rw [if_neg past, ride_within started.le (not_le.mp past), ride_within started.le (not_le.mp past)]
      ext <;> simp

theorem value_hasDerivative (made : Made t) (nonneg : 0 ≤ t.maxTime) (k : ℕ) (after : t.initialTime < time)
    (inside : time < t.initialTime + t.maxTime) : HasDerivative₂ k t.computeValue time
      ⟨(derivative^[k] (C t.initialValue.x + C t.velocity.x * X)).eval (time - t.initialTime),
        (derivative^[k] (C t.initialValue.y + C t.velocity.y * X)).eval (time - t.initialTime)⟩ := by
  rw [HasDerivative₂]
  simp only [computeValue_eq made nonneg]
  exact ⟨ride_hasDerivative k after inside, ride_hasDerivative k after inside⟩

theorem computeDerivative_within (after : t.initialTime < time) (before : time < t.finalTime) (order : ℤ) :
    t.computeDerivative time order = if order = 1 then t.velocity else 0 := by
  rw [computeDerivative, if_neg (not_le.mpr after), if_neg (not_le.mpr before)]

/-- Without a step back the trajectory is right. -/
theorem follows (made : Made t) (nonneg : 0 ≤ t.maxTime) : t.Consistent := by
  have still : t.maxTime = 0 → t.initialValue = t.finalValue := by
    intro none
    rw [made.finalValue, none]
    ext <;> simp
  have last_x : t.finalValue.x = t.initialValue.x + t.velocity.x * t.maxTime := congrArg Vector2.x made.finalValue
  have last_y : t.finalValue.y = t.initialValue.y + t.velocity.y * t.maxTime := congrArg Vector2.y made.finalValue
  refine ⟨if_pos le_rfl, ?_, ?_, ?_, ?_⟩
  · simp only [computeValue_eq made nonneg, last_x]
    exact ride_continuous nonneg (fun _ => line_ends ..) fun none => last_x ▸ congrArg Vector2.x (still none)
  · simp only [computeValue_eq made nonneg, last_y]
    exact ride_continuous nonneg (fun _ => line_ends ..) fun none => last_y ▸ congrArg Vector2.y (still none)
  · rintro v ⟨⟩
    rw [computeValue_eq made nonneg]
    exact Vector2.ext (ride_after nonneg made.finalTime.ge) (ride_after nonneg made.finalTime.ge)
  · intro time after before k low high
    refine ⟨_, rfl, ?_⟩
    have moving := value_hasDerivative made nonneg k after (before.trans_eq made.finalTime)
    rw [computeDerivative_within after before]
    interval_cases k
    · simpa using moving
    · have rest : HasDerivative₂ 2 t.computeValue time ⟨0, 0⟩ := by simpa using moving
      exact rest

/-- With a step back it jumps at the start. -/
theorem jumps (made : Made t) (back : t.maxTime < 0) : ¬ t.Consistent := by
  intro follows
  -- right after the start the value is the final one
  have later (time : ℝ) (after : t.initialTime < time) : t.computeValue time = t.finalValue := by
    have past : t.finalTime ≤ time := by linarith [made.finalTime]
    rw [computeValue, if_neg (not_le.mpr after), if_pos past]
  have limit (f : ℝ → ℝ) (c : ℝ) (continuous : Continuous f) (same : ∀ time, t.initialTime < time → f time = c) :
      f t.initialTime = c := by
    have closed : IsClosed {time | f time = c} := isClosed_eq continuous continuous_const
    have inside : closure (Set.Ioi t.initialTime) ⊆ {time | f time = c} := closed.closure_subset_iff.mpr same
    rw [closure_Ioi] at inside
    exact inside Set.self_mem_Ici
  have start : t.computeValue t.initialTime = t.initialValue := follows.start
  have last_x := limit _ _ follows.continuous_x fun time after => congrArg Vector2.x (later time after)
  have last_y := limit _ _ follows.continuous_y fun time after => congrArg Vector2.y (later time after)
  rw [start, made.finalValue] at last_x last_y
  have still_x : t.velocity.x * t.maxTime = 0 := left_eq_add.mp last_x
  have still_y : t.velocity.y * t.maxTime = 0 := left_eq_add.mp last_y
  have nonzero := ne_of_lt back
  exact made.moves (Vector2.ext ((mul_eq_zero_iff_right nonzero).mp still_x) ((mul_eq_zero_iff_right nonzero).mp still_y))

theorem init_consistent (velocity initialPosition : Vector2 ℝ) (maxDistance initialTime : ℝ) :
    (∃ t, init Real.sqrt velocity initialPosition maxDistance initialTime = .ok t ∧ t.Consistent) ↔ velocity ≠ 0 ∧ 0 ≤ maxDistance := by
  rw [init]
  by_cases none : velocity.length Real.sqrt = 0
  · rw [if_pos none]
    have still : velocity = 0 := Vector2.length_eq_zero.mp none
    simp [still]
  · have moves : velocity ≠ 0 := fun still => none (Vector2.length_eq_zero.mpr still)
    have positive : 0 < velocity.length Real.sqrt := lt_of_le_of_ne (Vector2.length_nonneg _) (Ne.symm none)
    rw [if_neg none, and_iff_right moves]
    have made : Made
        { initialValue := initialPosition
          velocity := velocity
          maxTime := maxDistance / velocity.length Real.sqrt
          initialTime := initialTime
          finalTime := initialTime + maxDistance / velocity.length Real.sqrt
          finalValue := initialPosition +
            ⟨maxDistance / velocity.length Real.sqrt * velocity.x, maxDistance / velocity.length Real.sqrt * velocity.y⟩ } := by
      refine ⟨moves, rfl, ?_⟩
      ext <;> simp [mul_comm]
    constructor
    · rintro ⟨_, ⟨⟩, consistent⟩
      by_contra back
      exact jumps made (div_neg_of_neg_of_pos (not_le.mp back) positive) consistent
    · intro forward
      exact ⟨_, rfl, follows made (div_nonneg forward positive.le)⟩

end Vector2VelocityTrajectory

/-! ### The constant acceleration -/

theorem parabola_derivative (w : ℝ) (s : ℝ) : (derivative^[1] (C (w / 2) * X ^ 2)).eval s = w * s := by
  simp
  ring

theorem parabola_derivative_two (w : ℝ) (s : ℝ) : (derivative^[2] (C (w / 2) * X ^ 2)).eval s = w := by
  simp
  ring

/-- A polynomial that waits for its start. -/
theorem waiting_hasDerivative (p : ℝ[X]) (k : ℕ) {a t : ℝ} (after : a < t) :
    HasDerivative k (fun s => p.eval (max 0 (s - a))) t ((derivative^[k] p).eval (t - a)) := by
  refine (hasDerivative_eval p k a t).congr ?_
  filter_upwards [Ioi_mem_nhds after] with s later
  rw [max_eq_right (sub_nonneg.mpr (Set.mem_Ioi.mp later).le)]

namespace Vector2ConstAccelTrajectory

variable {t : Vector2ConstAccelTrajectory ℝ} {time : ℝ}

/-- The acceleration along the axes. -/
noncomputable def acceleration (t : Vector2ConstAccelTrajectory ℝ) : Vector2 ℝ :=
  projectOntoAxes t.changeInRateV t.changeInRateS t.accel

/-- From the origin at rest. -/
noncomputable def value (t : Vector2ConstAccelTrajectory ℝ) (time : ℝ) : Vector2 ℝ :=
  ⟨(C (t.acceleration.x / 2) * X ^ 2).eval (max 0 (time - t.initialTime)),
    (C (t.acceleration.y / 2) * X ^ 2).eval (max 0 (time - t.initialTime))⟩

theorem computeValue_eq (changes : t.changeInRateS ≠ 0) (origin : t.initialValue = 0) (time : ℝ) :
    t.computeValue time = .ok (t.value time) := by
  rw [computeValue]
  by_cases early : time < t.initialTime
  · have low : time - t.initialTime ≤ 0 := sub_nonpos.mpr early.le
    rw [if_pos early, value, max_eq_left low, origin]
    simp
    rfl
  · have high : 0 ≤ time - t.initialTime := sub_nonneg.mpr (not_lt.mp early)
    simp only [if_neg early, project, if_neg changes, value, acceleration, projectOntoAxes, max_eq_right high, eval_mul, eval_C,
      eval_pow, eval_X]
    congr 2 <;> ring

/-- The start is at the origin, whatever the initial value is. -/
theorem computeValue_start (changes : t.changeInRateS ≠ 0) : t.computeValue t.initialTime = .ok 0 := by
  simp only [computeValue, lt_irrefl, if_false, project, if_neg changes, sub_self, mul_zero, projectOntoAxes, zero_mul, zero_div]
  rfl

theorem value_hasDerivative (t : Vector2ConstAccelTrajectory ℝ) (k : ℕ) (after : t.initialTime < time) :
    HasDerivative₂ k t.value time ⟨(derivative^[k] (C (t.acceleration.x / 2) * X ^ 2)).eval (time - t.initialTime),
      (derivative^[k] (C (t.acceleration.y / 2) * X ^ 2)).eval (time - t.initialTime)⟩ :=
  ⟨waiting_hasDerivative _ k after, waiting_hasDerivative _ k after⟩

theorem value_continuous (t : Vector2ConstAccelTrajectory ℝ) :
    (Continuous fun time => (t.value time).x) ∧ Continuous fun time => (t.value time).y := by
  have held : Continuous fun time => max 0 (time - t.initialTime) := continuous_const.max (continuous_id.sub continuous_const)
  exact ⟨(Polynomial.continuous _).comp held, (Polynomial.continuous _).comp held⟩

theorem computeDerivative_within (changes : t.changeInRateS ≠ 0) (after : t.initialTime < time) (before : time < t.finalTime) :
    t.computeDerivative time 1 = .ok (some ⟨t.acceleration.x * (time - t.initialTime), t.acceleration.y * (time - t.initialTime)⟩) ∧
      t.computeDerivative time 2 = .ok (some t.acceleration) := by
  have started : ¬ time < t.initialTime := not_lt.mpr after.le
  constructor
  · simp only [computeDerivative, if_neg started, if_pos before, project, if_neg changes, acceleration, projectOntoAxes, if_true,
      Functor.map, Except.map]
    congr 3 <;> ring
  · simp only [computeDerivative, if_neg started, if_pos before, project, if_neg changes]
    rfl

/-- The initial value and the initial rate are left out of the value: it is right for a start at the origin only. -/
theorem init_consistent (initialValue initialRate finalRate : Vector2 ℝ) (accel : Rate ℝ) (initialTime : ℝ) :
    (init Real.sqrt initialValue initialRate finalRate accel initialTime).Consistent ↔
      initialValue = 0 ∧ initialRate ≠ finalRate := by
  let t := init Real.sqrt initialValue initialRate finalRate accel initialTime
  have changed : t.changeInRateS = 0 ↔ initialRate = finalRate := by
    rw [show t.changeInRateS = (finalRate - initialRate).length Real.sqrt from rfl, Vector2.length_eq_zero,
      Vector2.sub_eq_zero_iff, eq_comm]
  constructor
  · rintro ⟨value, given, follows⟩
    have start : t.computeValue t.initialTime = .ok t.initialValue := (given _).trans (congrArg _ follows.start)
    by_cases same : t.changeInRateS = 0
    · rw [computeValue, if_neg (lt_irrefl _), project, if_pos same] at start
      cases start
    · rw [computeValue_start same] at start
      exact ⟨(Except.ok.inj start).symm, fun equal => same (changed.mpr equal)⟩
  · rintro ⟨origin, other⟩
    have changes : t.changeInRateS ≠ 0 := fun none => other (changed.mp none)
    obtain ⟨continuous_x, continuous_y⟩ := t.value_continuous
    refine ⟨t.value, computeValue_eq changes origin, ?_, continuous_x, continuous_y, by simp, ?_⟩
    · have zero : t.initialValue = 0 := origin
      rw [zero]
      ext <;> simp [value, show (init Real.sqrt initialValue initialRate finalRate accel initialTime).getInitialTime = t.initialTime from rfl]
    · intro time after before k low high
      have moving := t.value_hasDerivative k after
      obtain ⟨one, two⟩ := computeDerivative_within changes after before
      refine ⟨_, ?_, moving⟩
      interval_cases k
      · rw [parabola_derivative, parabola_derivative]
        exact one
      · rw [parabola_derivative_two, parabola_derivative_two]
        exact two

end Vector2ConstAccelTrajectory

theorem planar_consistent {solve : Solve ℝ} (exact : Solves solve) (initialValue finalValue initialRate finalRate velocity : Vector2 ℝ)
    (initialTime maxDistance : ℝ) (avgRate accel : Rate ℝ) :
    ((Vector2CubicTrajectory.init Real.sqrt solve initialValue finalValue initialTime initialRate avgRate).Consistent ↔
      initialValue = finalValue ∨ initialTime = 0 ∧ initialRate = 0) ∧
    ((∃ t, Vector2VelocityTrajectory.init Real.sqrt velocity initialValue maxDistance initialTime = .ok t ∧ t.Consistent) ↔
      velocity ≠ 0 ∧ 0 ≤ maxDistance) ∧
    ((Vector2ConstAccelTrajectory.init Real.sqrt initialValue initialRate finalRate accel initialTime).Consistent ↔
      initialValue = 0 ∧ initialRate ≠ finalRate) :=
  ⟨Vector2CubicTrajectory.init_consistent initialValue finalValue initialTime initialRate avgRate exact,
    Vector2VelocityTrajectory.init_consistent velocity initialValue maxDistance initialTime,
    Vector2ConstAccelTrajectory.init_consistent initialValue initialRate finalRate accel initialTime⟩

theorem planar_consistent_inverse :
    (Vector2CubicTrajectory.init Real.sqrt (fun A b => A⁻¹.mulVec b) ⟨1, 2⟩ ⟨3, 4⟩ 0 0 ⟨1 / 4, by norm_num⟩).Consistent :=
  (planar_consistent solves_inverse ⟨1, 2⟩ ⟨3, 4⟩ 0 0 0 0 0 ⟨1 / 4, by norm_num⟩ ⟨1, one_pos⟩).1.mpr (.inr ⟨rfl, rfl⟩)

/-- A change of velocity that starts at `(1, 0)` puts the vehicle at the origin. -/
theorem planar_origin :
    let t := Vector2ConstAccelTrajectory.init Real.sqrt ⟨1, 0⟩ 0 ⟨1, 0⟩ ⟨1, one_pos⟩ 0
    t.computeValue t.getInitialTime = .ok 0 ∧ ¬ t.Consistent := by
  intro t
  have changes : t.changeInRateS ≠ 0 := by
    intro none
    have zero : ((⟨1, 0⟩ : Vector2 ℝ) - 0).x = 0 := congrArg Vector2.x (Vector2.length_eq_zero.mp none)
    norm_num at zero
  have start : t.computeValue t.getInitialTime = .ok 0 := Vector2ConstAccelTrajectory.computeValue_start changes
  refine ⟨start, ?_⟩
  rintro ⟨value, given, follows⟩
  have zero : value t.getInitialTime = 0 := Except.ok.inj ((given _).symm.trans start)
  rw [follows.start] at zero
  have one : (1 : ℝ) = 0 := congrArg Vector2.x zero
  norm_num at one

end Tortuga.PlanarTrajectories
