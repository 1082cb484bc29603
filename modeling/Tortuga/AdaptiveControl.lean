import Tortuga.BoxedDescent
import Tortuga.Orientations

/-!
`AdaptiveRotationalController`: the torque that follows a desired orientation, with parameters of the vehicle that are adapted in
each update. The numbers are taken as exact; `sqrt` is the square root.
-/
namespace Tortuga.AdaptiveControl
open Matrix
open scoped Tortuga.Numerals
open Tortuga.BoxedDescent
open Tortuga.Geometry
open Tortuga.Orientations
open Tortuga.Thrusters (Vector3)

scoped instance atLeastTwo_five : Nat.AtLeastTwo 5 := ⟨by decide⟩

section
variable {K : Type} [Field K] [LinearOrder K]

/-- The entries of the configuration that `rotationalUpdate` reads. -/
structure Gains (K : Type) where
  dtMin : K
  dtMax : K
  rotLambda : K
  rotGamma : K
  rotK : K

/-- What is read from the estimator. -/
structure Estimate (K : Type) where
  orientation : Geometry.Quaternion K
  angularRate : Vector3 K
  velocity : Vector2 K
  depthRate : K

/-- The parameters, and the part of the desired state that is read and set. -/
structure Adaptive (K : Type) where
  params : Fin 15 → K
  desiredOrientation : Geometry.Quaternion K
  desiredAngularRate : Vector3 K

def clip (var min max : K) : K := if max < var then max else if var < min then min else var

/-- The limits that are in the code. -/
def lowest : Fin 15 → K := ![-2, -1, -0.5, -2, -1, -2, -1, -1, -1, 0, 0, 0, -5, -4, -5]

def highest : Fin 15 → K := ![2, 1, 0.5, 2, 1, 2, 1, 1, 1, 5, 4, 5, 5, 4, 5]

/-- `ToRotationMatrix`. -/
def toRotationMatrix (q : Geometry.Quaternion K) : Matrix3 K :=
  let fTx := 2 * q.x
  let fTy := 2 * q.y
  let fTz := 2 * q.z
  !![1 - (fTy * q.y + fTz * q.z), fTy * q.x - fTz * q.w, fTz * q.x + fTy * q.w;
    fTy * q.x + fTz * q.w, 1 - (fTx * q.x + fTz * q.z), fTz * q.y - fTx * q.w;
    fTz * q.x - fTy * q.w, fTz * q.y + fTx * q.w, 1 - (fTx * q.x + fTy * q.y)]

/-- The simple numerical integration of the desired orientation. -/
def propagate (sqrt : K → K) (qd : Geometry.Quaternion K) (wd : Vector3 K) (timestep : K) : Geometry.Quaternion K :=
  let dqd := derivative qd wd
  normalise sqrt ⟨qd.x + dqd.x * timestep, qd.y + dqd.y * timestep, qd.z + dqd.z * timestep, qd.w + dqd.w * timestep⟩

/-- The rate that the vehicle is to follow, and its derivative. -/
structure Reference (K : Type) where
  wr : Vector3 K
  dwr : Vector3 K

def reference (sqrt : K → K) (rotLambda : K) (q qd : Geometry.Quaternion K) (w wd dwd : Vector3 K) : Reference K :=
  let qcTilde := errorQuaternion sqrt q qd
  let rotMatcTilde := toRotationMatrix qcTilde
  let epsilon : Vector3 K := ⟨qcTilde.x, qcTilde.y, qcTilde.z⟩
  let eta := qcTilde.w
  let wcTilde := w - rotMatcTilde.apply wd
  let q1 : Matrix3 K := !![eta, -epsilon.z, epsilon.y; epsilon.z, eta, -epsilon.x; -epsilon.y, epsilon.x, eta]
  { wr := rotMatcTilde.apply wd - (epsilon.scale rotLambda).scale eta
    dwr := rotMatcTilde.apply dwd - Matrix3.apply (rotLambda • q1) wcTilde }

/-- `Y`, the parameterization matrix. -/
def parameterization (r : Reference K) (w : Vector3 K) (rot : Matrix3 K) (linVel : Vector3 K) : Matrix (Fin 3) (Fin 15) K :=
  let wr := r.wr
  let dwr := r.dwr
  !![dwr.x, dwr.y - w.x * wr.z, dwr.z + w.x * wr.y, -w.y * wr.z, w.y * wr.y - w.z * wr.z, w.z * wr.y,
      0, rot 2 2, -rot 1 2, -w.x * |w.x|, 0, 0, 0, linVel.z, -linVel.y;
    w.x * wr.z, dwr.x + w.y * wr.z, -w.x * wr.x + w.z * wr.z, dwr.y, dwr.z - w.y * wr.x, -w.z * wr.x,
      -rot 2 2, 0, rot 0 2, 0, -w.y * |w.y|, 0, -linVel.z, 0, linVel.x;
    -w.x * wr.y, w.x * wr.x - w.y * wr.y, dwr.x - w.z * wr.y, w.y * wr.x, dwr.y + w.z * wr.x, dwr.z,
      rot 1 2, -rot 0 2, 0, 0, 0, -w.z * |w.z|, linVel.y, -linVel.x, 0]

/-- A vector as a column of `MatrixN`. -/
def column (v : Vector3 K) : Fin 3 → K := ![v.x, v.y, v.z]

/-- What one update computes before the parameters are adapted. -/
structure Law (K : Type) where
  timestep : K
  qd : Geometry.Quaternion K
  wd : Vector3 K
  r : Reference K
  shat : Vector3 K
  y : Matrix (Fin 3) (Fin 15) K

def law (sqrt : K → K) (c : Gains K) (s : Adaptive K) (input : K × Estimate K) : Law K :=
  let timestep := clip input.1 c.dtMin c.dtMax
  let e := input.2
  let w := e.angularRate
  let dwd : Vector3 K := ⟨0, 0, 0⟩
  let wd := s.desiredAngularRate + dwd.scale timestep
  let qd := propagate sqrt s.desiredOrientation wd timestep
  let r := reference sqrt c.rotLambda e.orientation qd w wd dwd
  -- the measured orientation has been brought to unit length with the error
  let rot := toRotationMatrix (normalise sqrt e.orientation)
  { timestep := timestep, qd := qd, wd := wd, r := r, shat := w - r.wr
    y := parameterization r w rot ⟨e.velocity.x, e.velocity.y, e.depthRate⟩ }

/-- The new state, and the torque. -/
def rotationalUpdate (sqrt : K → K) (c : Gains K) (s : Adaptive K) (input : K × Estimate K) : Adaptive K × Vector3 K :=
  let l := law sqrt c s input
  let dahat := (-c.rotGamma • l.y.transpose).mulVec (column l.shat)
  let moved := s.params + l.timestep • dahat
  let params := fun i => clip (moved i) (lowest i) (highest i)
  let adaptiveTerm := l.y.mulVec params
  let output : Vector3 K := ⟨adaptiveTerm 0, adaptiveTerm 1, adaptiveTerm 2⟩
  ({ params := params, desiredOrientation := l.qd, desiredAngularRate := l.wd }, output - l.shat.scale c.rotK)

end

/-! ### The parameters -/

section
variable {K : Type} [Field K] [LinearOrder K] {sqrt : K → K} {c : Gains K} {s : Adaptive K} {input : K × Estimate K}

/-- The direction that the parameters leave. -/
def Law.direction (l : Law K) : Fin 15 → K := l.y.transpose.mulVec (column l.shat)

/-- The adaptation law with its dead zone is a step that is brought back into a box. -/
theorem adapts : (rotationalUpdate sqrt c s input).1.params =
    descend lowest highest s.params ((law sqrt c s input).timestep * c.rotGamma) (law sqrt c s input).direction := by
  have moved (l : Law K) : s.params + l.timestep • (-c.rotGamma • l.y.transpose).mulVec (column l.shat) =
      s.params - (l.timestep * c.rotGamma) • l.direction := by
    rw [Law.direction, smul_mulVec, smul_smul, mul_neg, neg_smul, sub_eq_add_neg]
  simp only [rotationalUpdate, moved]
  rfl

theorem limits [IsStrictOrderedRing K] (i : Fin 15) : (lowest i : K) ≤ highest i := by
  fin_cases i <;> norm_num [lowest, highest]

omit [LinearOrder K] in
/-- What is gained on other parameters is what their torque differs in, along the error. -/
theorem gain_eq (l : Law K) (e : Fin 15 → K) : l.direction ⬝ᵥ e = column l.shat ⬝ᵥ l.y.mulVec e := by
  rw [Law.direction, mulVec_transpose, dotProduct_mulVec]

end

/-! ### The desired orientation -/

section
variable {K : Type} [Field K] [LinearOrder K] [IsStrictOrderedRing K]

/-- The change of an orientation is at right angles to it. -/
theorem moved_norm (q : Geometry.Quaternion K) (w : Vector3 K) (t : K) :
    (⟨q.x + (derivative q w).x * t, q.y + (derivative q w).y * t, q.z + (derivative q w).z * t, q.w + (derivative q w).w * t⟩ :
        Geometry.Quaternion K).norm = q.norm * (1 + 1 / 4 * t ^ 2 * (w.x ^ 2 + w.y ^ 2 + w.z ^ 2)) := by
  simp only [Geometry.Quaternion.norm, derivative]
  ring

end

theorem normalise_norm {q : Geometry.Quaternion ℝ} (turned : q.norm ≠ 0) : (normalise Real.sqrt q).norm = 1 := by
  have nonneg : 0 ≤ q.norm :=
    add_nonneg (add_nonneg (add_nonneg (mul_self_nonneg _) (mul_self_nonneg _)) (mul_self_nonneg _)) (mul_self_nonneg _)
  have factor : (normalise Real.sqrt q).norm = 1 / √q.norm * (1 / √q.norm) * q.norm := by
    rw [normalise, Geometry.Quaternion.norm]
    simp only [Geometry.Quaternion.norm]
    ring
  rw [factor, one_div_mul_one_div, Real.mul_self_sqrt nonneg, one_div_mul_cancel turned]

/-- The desired orientation keeps unit length, or gets it. -/
theorem propagate_norm {qd : Geometry.Quaternion ℝ} (turned : qd.norm ≠ 0) (wd : Vector3 ℝ) (timestep : ℝ) :
    (propagate Real.sqrt qd wd timestep).norm = 1 := by
  refine normalise_norm ?_
  rw [moved_norm]
  have longer : 0 < 1 + 1 / 4 * timestep ^ 2 * (wd.x ^ 2 + wd.y ^ 2 + wd.z ^ 2) := by positivity
  exact mul_ne_zero turned longer.ne'

/-! ### Runs -/

section
variable (c : Gains ℝ) (s : Adaptive ℝ)

/-- The state after one update. -/
noncomputable def adapt (s : Adaptive ℝ) (input : ℝ × Estimate ℝ) : Adaptive ℝ := (rotationalUpdate Real.sqrt c s input).1

theorem adapt_turned {s : Adaptive ℝ} (turned : s.desiredOrientation.norm ≠ 0) (inputs : List (ℝ × Estimate ℝ)) :
    (inputs.foldl (adapt c) s).desiredOrientation.norm ≠ 0 ∧
      (inputs ≠ [] → (∀ i, lowest i ≤ (inputs.foldl (adapt c) s).params i ∧ (inputs.foldl (adapt c) s).params i ≤ highest i) ∧
        (inputs.foldl (adapt c) s).desiredOrientation.norm = 1) := by
  induction inputs using List.reverseRecOn with
  | nil => exact ⟨turned, fun none => absurd rfl none⟩
  | append_singleton inputs input ih =>
    rw [List.foldl_append, List.foldl_cons, List.foldl_nil]
    have unit : (adapt c (inputs.foldl (adapt c) s) input).desiredOrientation.norm = 1 := propagate_norm ih.1 _ _
    refine ⟨by rw [unit]; exact one_ne_zero, fun _ => ⟨fun i => ?_, unit⟩⟩
    rw [adapt, adapts]
    exact boxed_inside limits i

end

/-! ### The power of the torque -/

section
variable {K : Type} [Field K]

@[simp] theorem column_add (a b : Vector3 K) : column (a + b) = column a + column b := by
  ext i
  fin_cases i <;> rfl

@[simp] theorem column_sub (a b : Vector3 K) : column (a - b) = column a - column b := by
  ext i
  fin_cases i <;> rfl

@[simp] theorem column_scale (a : Vector3 K) (r : K) : column (a.scale r) = r • column a := by
  ext i
  fin_cases i <;> rfl

theorem cross_dot (h w wr : Vector3 K) : column (w - wr) ⬝ᵥ (column (h.crossProduct w) - column (h.crossProduct wr)) = 0 := by
  simp only [column, Vector3.crossProduct, dotProduct, Fin.sum_univ_three, Pi.sub_apply, cons_val_zero, cons_val_one, cons_val_two,
    head_cons, tail_cons, sub_x, sub_y, sub_z]
  ring

theorem apply_sub (m : Matrix3 K) (v w : Vector3 K) : m.apply (v - w) = m.apply v - m.apply w := by
  ext <;> simp only [Matrix3.apply, sub_x, sub_y, sub_z] <;> ring

end

section
variable {K : Type} [Field K] [LinearOrder K]

/-- The moments of inertia among the parameters. -/
def inertia (a : Fin 15 → K) : Matrix3 K := !![a 0, a 1, a 2; a 1, a 3, a 4; a 2, a 4, a 5]

/-- What the other parameters stand for: the buoyancy, the angular drag and the linear drag. -/
def moments (a : Fin 15 → K) (rot : Matrix3 K) (w linVel : Vector3 K) : Vector3 K :=
  (⟨a 6, a 7, a 8⟩ : Vector3 K).crossProduct ⟨rot 0 2, rot 1 2, rot 2 2⟩ - ⟨a 9 * (w.x * |w.x|), a 10 * (w.y * |w.y|), a 11 * (w.z * |w.z|)⟩
    + (⟨a 12, a 13, a 14⟩ : Vector3 K).crossProduct linVel

/-- The parameterization is linear in the parameters of a rigid body. -/
theorem parameterization_mulVec (r : Reference K) (w : Vector3 K) (rot : Matrix3 K) (linVel : Vector3 K) (a : Fin 15 → K) :
    (parameterization r w rot linVel).mulVec a =
      column ((inertia a).apply r.dwr - ((inertia a).apply w).crossProduct r.wr + moments a rot w linVel) := by
  funext i
  fin_cases i <;>
    simp [parameterization, mulVec, dotProduct, Fin.sum_univ_succ, column, inertia, moments, Matrix3.apply, Vector3.crossProduct]
  · ring
  · ring
  · ring

/-- The torque is what the adapted parameters stand for, less the error times the gain. -/
theorem torque_eq (sqrt : K → K) (c : Gains K) (s : Adaptive K) (input : K × Estimate K) :
    column (rotationalUpdate sqrt c s input).2 =
      (law sqrt c s input).y.mulVec (rotationalUpdate sqrt c s input).1.params - c.rotK • column (law sqrt c s input).shat := by
  rw [rotationalUpdate, column_sub, column_scale]
  congr 1
  ext i
  fin_cases i <;> rfl

/-- Where a body with the parameters `a` turns under the torque of an update, the power of the change of the composite error is what
    the gain takes out of it, and what the adapted parameters are off by. -/
theorem composite_power (sqrt : K → K) (c : Gains K) (s : Adaptive K) (input : K × Estimate K) (a : Fin 15 → K) (dw : Vector3 K)
    (turns : (inertia a).apply dw =
      ((inertia a).apply input.2.angularRate).crossProduct input.2.angularRate + (rotationalUpdate sqrt c s input).2
        - moments a (toRotationMatrix (normalise sqrt input.2.orientation)) input.2.angularRate
          ⟨input.2.velocity.x, input.2.velocity.y, input.2.depthRate⟩) :
    let l := law sqrt c s input
    column l.shat ⬝ᵥ column ((inertia a).apply (dw - l.r.dwr)) =
      -c.rotK * (column l.shat ⬝ᵥ column l.shat)
        + column l.shat ⬝ᵥ l.y.mulVec ((rotationalUpdate sqrt c s input).1.params - a) := by
  intro l
  have body := parameterization_mulVec l.r input.2.angularRate (toRotationMatrix (normalise sqrt input.2.orientation))
    ⟨input.2.velocity.x, input.2.velocity.y, input.2.depthRate⟩ a
  have torque := torque_eq sqrt c s input
  have moved := congrArg column turns
  simp only [column_add, column_sub] at body moved
  -- The rigid body's own terms differ by what is at right angles to the error.
  have parts : column ((inertia a).apply (dw - l.r.dwr)) =
      (column (((inertia a).apply input.2.angularRate).crossProduct input.2.angularRate)
          - column (((inertia a).apply input.2.angularRate).crossProduct l.r.wr))
        + l.y.mulVec ((rotationalUpdate sqrt c s input).1.params - a) - c.rotK • column l.shat := by
    have same : l.y = parameterization l.r input.2.angularRate (toRotationMatrix (normalise sqrt input.2.orientation))
      ⟨input.2.velocity.x, input.2.velocity.y, input.2.depthRate⟩ := rfl
    rw [apply_sub, column_sub, moved, torque, mulVec_sub]
    change _ + ((law sqrt c s input).y.mulVec _ - _) - _ - _ = _ + (l.y.mulVec _ - l.y.mulVec a) - _
    rw [show l.y.mulVec a = _ from body]
    abel
  rw [parts, dotProduct_sub, dotProduct_add, dotProduct_smul, smul_eq_mul]
  have error : l.shat = input.2.angularRate - l.r.wr := rfl
  rw [error, cross_dot, zero_add, neg_mul, neg_add_eq_sub]

/-- A body with unit moments of inertia that turns about its first axis, and is to rest. -/
theorem composite_power_unit :
    let gains : Gains ℚ := { dtMin := 0, dtMax := 1, rotLambda := 1, rotGamma := 0, rotK := 1 }
    let start : Adaptive ℚ := { params := 0, desiredOrientation := ⟨0, 0, 0, 1⟩, desiredAngularRate := ⟨0, 0, 0⟩ }
    let input : ℚ × Estimate ℚ := (1, { orientation := ⟨0, 0, 0, 1⟩, angularRate := ⟨1, 0, 0⟩, velocity := ⟨0, 0⟩, depthRate := 0 })
    let a : Fin 15 → ℚ := ![1, 0, 0, 1, 0, 1, 0, 0, 0, 0, 0, 0, 0, 0, 0]
    let l := law id gains start input
    column l.shat ⬝ᵥ column ((inertia a).apply (⟨-1, 0, 0⟩ - l.r.dwr)) =
      -gains.rotK * (column l.shat ⬝ᵥ column l.shat)
        + column l.shat ⬝ᵥ l.y.mulVec ((rotationalUpdate id gains start input).1.params - a) := by
  intro gains start input a
  exact composite_power id gains start input a ⟨-1, 0, 0⟩ (by decide +kernel)

end

end Tortuga.AdaptiveControl
