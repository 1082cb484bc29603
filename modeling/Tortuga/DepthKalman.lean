import Tortuga.Covariances
import Tortuga.Geometry
import Mathlib.Data.List.Induction
import Mathlib.Algebra.Order.Star.Real

/-!
The depth filter (`DepthKalmanModule.cpp`) in exact arithmetic, over any depth events: its covariance
stays one.
-/
namespace Tortuga.DepthKalman
open scoped Tortuga.Numerals
open Matrix Tortuga.Geometry Tortuga.Covariances
open Tortuga.Thrusters (Vector3)

section
variable {K : Type} [Field K]

structure DepthKalmanModule (K : Type) where
  xHat : Vector2 K
  Pk : Matrix2 K

/-- The constructor. -/
def DepthKalmanModule.new : DepthKalmanModule K := ⟨0, ⟨2, 0, 0, 1⟩⟩

structure RawDepthSensorDataEvent (K : Type) where
  rawDepth : K
  sensorLocation : Vector3 K
  timestep : K

inductive Event (K : Type)
  | rawUpdate (ievent : RawDepthSensorDataEvent K)
  /-- An event that the cast fails on. -/
  | other

/-- What the module reads and sets of `EstimatedState`. -/
structure EstimatedState (K : Type) where
  orientation : Geometry.Quaternion K
  depth : K
  depthRate : K

/-! ### One update -/

def Ak (dt : K) : Matrix2 K := ⟨1, dt, 0, 1⟩

def Hk : Vector2 K := ⟨1, 0⟩

def Qk : Matrix2 K := ⟨0.005, 0, 0, 0.002⟩

def Rk : K := 0.001

/-- The depth of the vehicle. -/
def measurement (orientation : Geometry.Quaternion K) (ievent : RawDepthSensorDataEvent K) : K :=
  let currentSensorLocation := orientation.rotate ievent.sensorLocation
  let sensorMovement := currentSensorLocation - ievent.sensorLocation
  ievent.rawDepth + sensorMovement.z

namespace DepthKalmanModule
variable (module : DepthKalmanModule K) (dt zk : K)

/-- `Pk` after the prediction step. -/
def predicted : Matrix2 K := Ak dt * module.Pk * (Ak dt).transpose + Qk

def Sk : K := Hk.dotProduct ((module.predicted dt).apply Hk) + Rk

def gain : Vector2 K := ((module.predicted dt).apply Hk).scale (1 / module.Sk dt)

/-- The filter after the measurement `zk`. -/
def measured : DepthKalmanModule K :=
  let xHat := (Ak dt).apply module.xHat
  let yk := zk - Hk.dotProduct xHat
  { xHat := xHat + (module.gain dt).scale yk
    Pk := (1 - Matrix2.fromOuterProduct (module.gain dt) Hk) * module.predicted dt }

def update (estimatedState : EstimatedState K) : Event K → DepthKalmanModule K × EstimatedState K
  | .rawUpdate ievent =>
    let next := module.measured ievent.timestep (measurement estimatedState.orientation ievent)
    (next, { estimatedState with depth := next.xHat.x, depthRate := next.xHat.y })
  | .other => (module, estimatedState)

end DepthKalmanModule

/-- One event, with the orientation that other modules have estimated by then. -/
def next (s : DepthKalmanModule K × EstimatedState K) (step : Geometry.Quaternion K × Event K) : DepthKalmanModule K × EstimatedState K :=
  s.1.update { s.2 with orientation := step.1 } step.2

def run (estimatedState : EstimatedState K) (steps : List (Geometry.Quaternion K × Event K)) : DepthKalmanModule K × EstimatedState K :=
  steps.foldl next (.new, estimatedState)

end

/-! ### Matrices of two as matrices -/

def toVector (v : Vector2 ℝ) : Fin 2 → ℝ := ![v.x, v.y]

def toMatrix (P : Matrix2 ℝ) : Matrix (Fin 2) (Fin 2) ℝ := !![P.m00, P.m01; P.m10, P.m11]

section
variable (P Q : Matrix2 ℝ) (v w : Vector2 ℝ)

theorem toMatrix_one : toMatrix 1 = 1 := Matrix.one_fin_two.symm

theorem toMatrix_add : toMatrix (P + Q) = toMatrix P + toMatrix Q := by
  ext i j
  fin_cases i <;> fin_cases j <;> rfl

theorem toMatrix_sub : toMatrix (P - Q) = toMatrix P - toMatrix Q := by
  ext i j
  fin_cases i <;> fin_cases j <;> rfl

theorem toMatrix_mul : toMatrix (P * Q) = toMatrix P * toMatrix Q := by
  rw [toMatrix, toMatrix, toMatrix, Matrix.mul_fin_two]
  rfl

theorem toMatrix_transpose : toMatrix P.transpose = (toMatrix P)ᵀ := by
  ext i j
  fin_cases i <;> fin_cases j <;> rfl

theorem toMatrix_apply : toVector (P.apply v) = toMatrix P *ᵥ toVector v := by
  ext i
  fin_cases i <;> simp [toVector, toMatrix, Matrix2.apply, mulVec, dotProduct]

theorem toMatrix_fromOuterProduct : toMatrix (.fromOuterProduct v w) = vecMulVec (toVector v) (toVector w) := by
  ext i j
  fin_cases i <;> fin_cases j <;> rfl

theorem toVector_dotProduct : v.dotProduct w = toVector v ⬝ᵥ toVector w := by
  simp [toVector, Vector2.dotProduct, dotProduct]

theorem toVector_scale (r : ℝ) : toVector (v.scale r) = r • toVector v := by
  ext i
  fin_cases i <;> simp [toVector, mul_comm]

variable {P Q v}

theorem toMatrix_injective (same : toMatrix P = toMatrix Q) : P = Q := by
  ext
  · exact congrFun (congrFun same 0) 0
  · exact congrFun (congrFun same 0) 1
  · exact congrFun (congrFun same 1) 0
  · exact congrFun (congrFun same 1) 1

theorem toVector_eq_zero : toVector v = 0 ↔ v = 0 := by
  constructor
  · intro zero
    ext
    · exact congrFun zero 0
    · exact congrFun zero 1
  · rintro rfl
    ext i
    fin_cases i <;> rfl

end

/-! ### The covariance -/

/-- Symmetric, with a positive variance in each direction. -/
def IsCovariance (P : Matrix2 ℝ) : Prop := P.transpose = P ∧ ∀ v : Vector2 ℝ, v ≠ 0 → 0 < v.dotProduct (P.apply v)

theorem isCovariance_of_posDef {P : Matrix2 ℝ} (positive : (toMatrix P).PosDef) : IsCovariance P := by
  have symmetric : (toMatrix P)ᵀ = toMatrix P := positive.isHermitian
  constructor
  · apply toMatrix_injective
    rw [toMatrix_transpose, symmetric]
  · intro v nonzero
    rw [toVector_dotProduct, toMatrix_apply]
    exact variance_pos positive (mt toVector_eq_zero.mp nonzero)

/-- The variance that an update divides by, what it makes of the depth variance, and the weight it gives to the depth. -/
structure WellConditioned (module : DepthKalmanModule ℝ) (dt zk : ℝ) : Prop where
  innovation : Rk ≤ module.Sk dt
  lowers : (module.measured dt zk).Pk.m00 < (module.predicted dt).m00
  weight : 0 < (module.gain dt).x ∧ (module.gain dt).x < 1

variable {module : DepthKalmanModule ℝ} {dt zk : ℝ}

theorem diagonal_posDef {a d : ℝ} (first : 0 < a) (second : 0 < d) : (toMatrix ⟨a, 0, 0, d⟩).PosDef := by
  have diagonal : toMatrix ⟨a, 0, 0, d⟩ = Matrix.diagonal ![a, d] := by
    ext i j
    fin_cases i <;> fin_cases j <;> rfl
  rw [diagonal]
  refine .diagonal fun i => ?_
  fin_cases i
  · exact first
  · exact second

theorem Qk_posDef : (toMatrix Qk).PosDef := diagonal_posDef (by norm_num) (by norm_num)

theorem new_posDef : (toMatrix (DepthKalmanModule.new : DepthKalmanModule ℝ).Pk).PosDef := diagonal_posDef two_pos one_pos

theorem Rk_pos : 0 < (Rk : ℝ) := by
  norm_num [Rk]

theorem Hk_ne_zero : toVector Hk ≠ 0 := by
  rw [Ne, toVector_eq_zero, Vector2.ext_iff]
  simp [Hk]

/-- The prediction is a linear step with noise. -/
theorem predicted_posDef (positive : (toMatrix module.Pk).PosDef) (dt : ℝ) : (toMatrix (module.predicted dt)).PosDef := by
  rw [DepthKalmanModule.predicted, toMatrix_add, toMatrix_mul, toMatrix_mul, toMatrix_transpose]
  exact predict_posDef positive Qk_posDef

theorem Sk_eq (module : DepthKalmanModule ℝ) (dt : ℝ) :
    module.Sk dt = variance (toMatrix (module.predicted dt)) (toVector Hk) + Rk := by
  rw [DepthKalmanModule.Sk, toVector_dotProduct, toMatrix_apply, variance]

theorem gain_eq (module : DepthKalmanModule ℝ) (dt : ℝ) :
    toVector (module.gain dt) = Covariances.gain (toMatrix (module.predicted dt)) (toVector Hk) Rk := by
  rw [DepthKalmanModule.gain, toVector_scale, toMatrix_apply, Sk_eq, Covariances.gain]

/-- The update is the measurement of the depth. -/
theorem measured_eq (module : DepthKalmanModule ℝ) (dt zk : ℝ) :
    toMatrix (module.measured dt zk).Pk = condition (toMatrix (module.predicted dt)) (toVector Hk) Rk := by
  rw [DepthKalmanModule.measured, toMatrix_mul, toMatrix_sub, toMatrix_one, toMatrix_fromOuterProduct, gain_eq, condition]

theorem measured_posDef (positive : (toMatrix module.Pk).PosDef) (dt zk : ℝ) : (toMatrix (module.measured dt zk).Pk).PosDef := by
  rw [measured_eq]
  exact condition_posDef (predicted_posDef positive dt) Rk_pos

/-- The depth variance. -/
theorem variance_Hk (P : Matrix2 ℝ) : variance (toMatrix P) (toVector Hk) = P.m00 := by
  simp [variance, toMatrix, toVector, Hk, mulVec, dotProduct]

theorem wellConditioned (positive : (toMatrix module.Pk).PosDef) (dt zk : ℝ) : WellConditioned module dt zk := by
  have predicted := predicted_posDef positive dt
  have depth : (module.gain dt).x = toVector Hk ⬝ᵥ Covariances.gain (toMatrix (module.predicted dt)) (toVector Hk) Rk := by
    rw [← gain_eq]
    simp [toVector, Hk, dotProduct]
  constructor
  · rw [Sk_eq]
    exact le_add_of_nonneg_left (variance_nonneg predicted _)
  · rw [← variance_Hk, ← variance_Hk, measured_eq]
    exact condition_variance_lt predicted Rk_pos Hk_ne_zero
  · rw [depth]
    exact gain_mem predicted Rk_pos Hk_ne_zero

theorem run_posDef (estimatedState : EstimatedState ℝ) (steps : List (Geometry.Quaternion ℝ × Event ℝ)) :
    (toMatrix (run estimatedState steps).1.Pk).PosDef := by
  induction steps using List.reverseRecOn with
  | nil => exact new_posDef
  | append_singleton steps step ih =>
    rw [run, List.foldl_append, List.foldl_cons, List.foldl_nil, next]
    cases step.2 with
    | rawUpdate ievent => exact measured_posDef ih _ _
    | other => exact ih

/-- After any depth events the covariance is one, and whatever the next event brings, its update is well conditioned. -/
theorem covariance_kept (estimatedState : EstimatedState ℝ) (steps : List (Geometry.Quaternion ℝ × Event ℝ)) :
    IsCovariance (run estimatedState steps).1.Pk ∧ ∀ dt zk, WellConditioned (run estimatedState steps).1 dt zk :=
  ⟨isCovariance_of_posDef (run_posDef estimatedState steps), wellConditioned (run_posDef estimatedState steps)⟩

end Tortuga.DepthKalman
