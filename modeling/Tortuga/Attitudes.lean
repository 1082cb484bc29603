import Tortuga.AdaptiveControl
import Tortuga.RotationMatrices

/-!
Orientations as quaternions and as matrices (`Quaternion.cpp`): what is found again when one is made into the other, and the orientation that
`quaternionFromMagAccel` finds of a vehicle at rest. The numbers are taken as exact.
-/
namespace Tortuga.Attitudes
open Matrix
open scoped Tortuga.Numerals
open Tortuga.AdaptiveControl (toRotationMatrix)
open Tortuga.Geometry
open Tortuga.Orientations
open Tortuga.RotationMatrices
open Tortuga.Thrusters (Vector3)

section
variable {K : Type} [Field K]

/-- `operator-` -/
instance : Neg (Geometry.Quaternion K) := ⟨fun q => ⟨-q.x, -q.y, -q.z, -q.w⟩⟩

/-- `s_iNext` -/
def sINext : Fin 3 → Fin 3 := ![1, 2, 0]

/-- The quaternion of a matrix whose trace is not positive, from the place `i` of the greatest number on the diagonal. -/
def fromGreatest (sqrt : K → K) (kRot : Matrix3 K) (i : Fin 3) : Geometry.Quaternion K :=
  let j := sINext i
  let k := sINext j
  let root := sqrt (kRot i i - kRot j j - kRot k k + 1)
  let fRoot := 1 / 2 / root
  let w := (kRot k j - kRot j k) * fRoot
  -- `apkQuat` points to `x`, `y` and `z`
  let apkQuat : Fin 3 → K := Function.update (fun _ => 0) i (1 / 2 * root)
  let apkQuat := Function.update apkQuat j ((kRot j i + kRot i j) * fRoot)
  let apkQuat := Function.update apkQuat k ((kRot k i + kRot i k) * fRoot)
  ⟨apkQuat 0, apkQuat 1, apkQuat 2, w⟩

def fromRotationMatrix [LinearOrder K] (sqrt : K → K) (kRot : Matrix3 K) : Geometry.Quaternion K :=
  let fTrace := kRot 0 0 + kRot 1 1 + kRot 2 2
  if 0 < fTrace then
    let w := 1 / 2 * sqrt (fTrace + 1)
    let fRoot := 1 / 2 / sqrt (fTrace + 1)
    ⟨(kRot 2 1 - kRot 1 2) * fRoot, (kRot 0 2 - kRot 2 0) * fRoot, (kRot 1 0 - kRot 0 1) * fRoot, w⟩
  else
    let i : Fin 3 := if kRot 0 0 < kRot 1 1 then 1 else 0
    fromGreatest sqrt kRot (if kRot i i < kRot 2 2 then 2 else i)

/-- The numbers of a quaternion in the order of its members. -/
def toVec (q : Geometry.Quaternion K) : Fin 4 → K := ![q.x, q.y, q.z, q.w]

variable {q q' : Geometry.Quaternion K}

omit [Field K] in
theorem toVec_injective (same : toVec q = toVec q') : q = q' :=
  Geometry.Quaternion.ext (congrFun same 0) (congrFun same 1) (congrFun same 2) (congrFun same 3)

omit [Field K] in
theorem toVec_eq_iff : toVec q = toVec q' ↔ q = q' :=
  ⟨toVec_injective, congrArg toVec⟩

theorem toVec_neg : toVec (-q) = -toVec q := by
  ext i
  fin_cases i <;> rfl

theorem norm_eq : q.norm = toVec q ⬝ᵥ toVec q := by
  rw [dotProduct, Fin.sum_univ_four, Geometry.Quaternion.norm]
  simp only [toVec, cons_val]
  ring

theorem toRotationMatrix_eq : toRotationMatrix q = matrixOf (toVec q) := by
  ext i j
  fin_cases i <;> fin_cases j <;> simp [toRotationMatrix, matrixOf, toVec] <;> ring

/-- The matrix turns as the quaternion does. -/
theorem apply_toRotationMatrix (v : Vector3 K) : (toRotationMatrix q).apply v = q.rotate v := by
  ext <;> simp [toRotationMatrix, Matrix3.apply, Geometry.Quaternion.rotate, Vector3.crossProduct] <;> ring

theorem toRotationMatrix_unitInverse : toRotationMatrix q.unitInverse = (toRotationMatrix q)ᵀ := by
  ext i j
  fin_cases i <;> fin_cases j <;> simp [toRotationMatrix, Geometry.Quaternion.unitInverse] <;> ring

end

section
variable {q : Geometry.Quaternion ℝ}

theorem half_root {x : ℝ} (pos : 0 < x) : 1 / 2 * √x = x / (2 * √x) := by
  have away : √x ≠ 0 := (Real.sqrt_pos.mpr pos).ne'
  rw [eq_div_iff (mul_ne_zero two_ne_zero away)]
  linear_combination Real.mul_self_sqrt pos.le

/-- The entry for the greatest number of the diagonal is chosen when the trace is not positive. -/
theorem greatest_pivot (R : Matrix3 ℝ) {i : Fin 3} (greatest : ∀ j, R j j ≤ R i i) (trace : ¬0 < R 0 0 + R 1 1 + R 2 2) :
    0 < R i i - R (sINext i) (sINext i) - R (sINext (sINext i)) (sINext (sINext i)) + 1 := by
  have first := greatest 0
  have second := greatest 1
  have third := greatest 2
  fin_cases i <;> simp [sINext] at * <;> linarith

theorem fromGreatest_eq (R : Matrix3 ℝ) {i : Fin 3}
    (pivot : 0 < R i i - R (sINext i) (sINext i) - R (sINext (sINext i)) (sINext (sINext i)) + 1) :
    toVec (fromGreatest Real.sqrt R i) = fromPivot (products R) i.castSucc := by
  simp only [fromGreatest, half_root pivot]
  ext m
  fin_cases i <;> fin_cases m <;> simp [toVec, fromPivot, products, sINext] <;> ring

/-- The quaternion is the column of a pivot, which is never zero. -/
theorem fromRotationMatrix_eq (R : Matrix3 ℝ) :
    ∃ p, 0 < products R p p ∧ toVec (fromRotationMatrix Real.sqrt R) = fromPivot (products R) p := by
  rw [fromRotationMatrix]
  by_cases trace : 0 < R 0 0 + R 1 1 + R 2 2
  · have pivot : 0 < R 0 0 + R 1 1 + R 2 2 + 1 := by linarith
    refine ⟨3, pivot, ?_⟩
    rw [if_pos trace, half_root pivot]
    ext i
    fin_cases i <;> simp [toVec, fromPivot, products] <;> ring
  · rw [if_neg trace]
    set first : Fin 3 := if R 0 0 < R 1 1 then 1 else 0 with first_eq
    set i : Fin 3 := if R first first < R 2 2 then 2 else first with i_eq
    have greatest : ∀ j, R j j ≤ R i i := by
      intro j
      rw [i_eq, first_eq]
      split_ifs <;> fin_cases j <;> simp <;> linarith
    have pivot := greatest_pivot R greatest trace
    refine ⟨i.castSucc, ?_, fromGreatest_eq R pivot⟩
    clear_value i
    fin_cases i <;> simpa [sINext, products] using pivot

theorem toRotationMatrix_rotation (unit : q.norm = 1) : toRotationMatrix q ∈ specialOrthogonalGroup (Fin 3) ℝ := by
  rw [norm_eq] at unit
  rw [toRotationMatrix_eq]
  exact matrixOf_rotation unit

/-- A quaternion of unit length is found again from its matrix but for the sign, and each rotation from its quaternion. -/
theorem rotation_round_trips :
    (∀ q : Geometry.Quaternion ℝ, q.norm = 1 →
      fromRotationMatrix Real.sqrt (toRotationMatrix q) = q ∨ fromRotationMatrix Real.sqrt (toRotationMatrix q) = -q) ∧
    ∀ R : Matrix3 ℝ, R ∈ specialOrthogonalGroup (Fin 3) ℝ →
      (fromRotationMatrix Real.sqrt R).norm = 1 ∧ toRotationMatrix (fromRotationMatrix Real.sqrt R) = R := by
  have back : ∀ R : Matrix3 ℝ, R ∈ specialOrthogonalGroup (Fin 3) ℝ →
      (fromRotationMatrix Real.sqrt R).norm = 1 ∧ toRotationMatrix (fromRotationMatrix Real.sqrt R) = R := by
    intro R rotation
    obtain ⟨p, pivot, column⟩ := fromRotationMatrix_eq R
    rw [norm_eq, toRotationMatrix_eq, column]
    exact fromPivot_rotation rotation pivot
  refine ⟨fun q unit => ?_, back⟩
  have found := back (toRotationMatrix q) (toRotationMatrix_rotation unit)
  rw [norm_eq] at unit
  set q' := fromRotationMatrix Real.sqrt (toRotationMatrix q)
  rw [norm_eq, toRotationMatrix_eq, toRotationMatrix_eq] at found
  have same : ∀ i j, toVec q' i * toVec q' j = toVec q i * toVec q j := by
    intro i j
    have both := products_matrixOf found.1 i j
    rw [found.2, products_matrixOf unit] at both
    linarith
  rcases eq_or_neg_of_products same with kept | opposite
  · exact .inl (toVec_injective kept)
  · exact .inr (toVec_injective (opposite.trans toVec_neg.symm))

/-! ### The orientation of a vehicle at rest -/

/-- What is measured of a vehicle at rest, as seen from the earth: the acceleration against gravity, and a magnetic field without an
    eastern part. Neither is so short, nor the field so steep, that `normalise` leaves a vector as it is. -/
structure Earth where
  gravity : ℝ
  north : ℝ
  down : ℝ
  heavy : 1e-08 < gravity
  strong : 1e-08 < √(north * north + down * down)
  level : 1e-08 < gravity * (north / √(north * north + down * down))

instance : Inhabited Earth where
  default :=
    { gravity := 1
      north := 1
      down := 0
      heavy := by norm_num
      strong := by norm_num
      level := by norm_num }

def Earth.mag (earth : Earth) : Vector3 ℝ := ⟨earth.north, 0, earth.down⟩

def Earth.accel (earth : Earth) : Vector3 ℝ := ⟨0, 0, -earth.gravity⟩

/-- What is found of a vehicle with the orientation `q`. -/
noncomputable def Earth.orientation (earth : Earth) (q : Geometry.Quaternion ℝ) : Geometry.Quaternion ℝ :=
  quaternionFromMagAccel Real.sqrt (q.unitInverse.rotate earth.mag) (q.unitInverse.rotate earth.accel)

/-- A row of a matrix, which is an axis of the earth as seen from the vehicle. -/
def row (R : Matrix3 ℝ) (i : Fin 3) : Vector3 ℝ := ⟨R i 0, R i 1, R i 2⟩

theorem normaliseVector_scale {v : Vector3 ℝ} (length : v.x * v.x + v.y * v.y + v.z * v.z = 1) {r : ℝ} (long : 1e-08 < r) :
    normaliseVector Real.sqrt (v.scale r) = v := by
  have pos : 0 < r := lt_trans (by norm_num) long
  have root : √(r * v.x * (r * v.x) + r * v.y * (r * v.y) + r * v.z * (r * v.z)) = r := by
    rw [show r * v.x * (r * v.x) + r * v.y * (r * v.y) + r * v.z * (r * v.z) = r * r by linear_combination r * r * length]
    exact Real.sqrt_mul_self pos.le
  simp only [normaliseVector, Vector3.scale, root, if_pos long]
  ext <;> field_simp

theorem row_cross_row {R : Matrix3 ℝ} (rotation : R ∈ specialOrthogonalGroup (Fin 3) ℝ) (i : Fin 3) :
    (row R (i + 1)).crossProduct (row R (i + 2)) = row R i := by
  ext
  · exact cofactor_rotation rotation i 0
  · exact cofactor_rotation rotation i 1
  · exact cofactor_rotation rotation i 2

theorem row_length {R : Matrix3 ℝ} (rotation : R ∈ specialOrthogonalGroup (Fin 3) ℝ) (i : Fin 3) :
    (row R i).x * (row R i).x + (row R i).y * (row R i).y + (row R i).z * (row R i).z = 1 :=
  (row_mul_row rotation i i).trans (one_apply_eq i)

section
variable (earth : Earth) {R : Matrix3 ℝ} (rotation : R ∈ specialOrthogonalGroup (Fin 3) ℝ)
include rotation

theorem third_axis : normaliseVector Real.sqrt ((Matrix3.apply Rᵀ earth.accel).scale (-1)) = row R 2 := by
  have scaled : (Matrix3.apply Rᵀ earth.accel).scale (-1) = (row R 2).scale earth.gravity := by
    ext <;> simp [Matrix3.apply, Earth.accel, row, Vector3.scale, mul_comm]
  rw [scaled]
  exact normaliseVector_scale (row_length rotation 2) earth.heavy

theorem normalise_mag : normaliseVector Real.sqrt (Matrix3.apply Rᵀ earth.mag) =
    (Matrix3.apply Rᵀ earth.mag).scale (1 / √(earth.north * earth.north + earth.down * earth.down)) := by
  have first := row_mul_row rotation 0 0
  have last := row_mul_row rotation 2 2
  have mixed := row_mul_row rotation 0 2
  rw [one_apply_eq] at first last
  rw [one_apply_ne (by decide)] at mixed
  have length : (Matrix3.apply Rᵀ earth.mag).x * (Matrix3.apply Rᵀ earth.mag).x +
      (Matrix3.apply Rᵀ earth.mag).y * (Matrix3.apply Rᵀ earth.mag).y +
      (Matrix3.apply Rᵀ earth.mag).z * (Matrix3.apply Rᵀ earth.mag).z = earth.north * earth.north + earth.down * earth.down := by
    simp only [Matrix3.apply, Earth.mag, transpose_apply]
    linear_combination earth.north * earth.north * first + earth.down * earth.down * last + 2 * earth.north * earth.down * mixed
  rw [normaliseVector, length]
  exact if_pos earth.strong

/-- The field and the acceleration span the plane across the second axis. -/
theorem second_axis : normaliseVector Real.sqrt
    ((normaliseVector Real.sqrt (Matrix3.apply Rᵀ earth.mag)).crossProduct (Matrix3.apply Rᵀ earth.accel)) = row R 1 := by
  rw [normalise_mag earth rotation]
  set l := √(earth.north * earth.north + earth.down * earth.down)
  have scaled : ((Matrix3.apply Rᵀ earth.mag).scale (1 / l)).crossProduct (Matrix3.apply Rᵀ earth.accel) =
      ((row R 2).crossProduct (row R 0)).scale (earth.gravity * (earth.north / l)) := by
    ext <;> simp [Matrix3.apply, Earth.mag, Earth.accel, row, Vector3.scale, Vector3.crossProduct] <;> ring
  rw [scaled, show (row R 2).crossProduct (row R 0) = row R 1 from row_cross_row rotation 1]
  exact normaliseVector_scale (row_length rotation 1) earth.level

theorem first_axis : normaliseVector Real.sqrt ((row R 1).crossProduct (row R 2)) = row R 0 := by
  have whole : row R 0 = (row R 0).scale 1 := by
    ext <;> simp [Vector3.scale]
  rw [show (row R 1).crossProduct (row R 2) = row R 0 from row_cross_row rotation 0]
  calc normaliseVector Real.sqrt (row R 0) = normaliseVector Real.sqrt ((row R 0).scale 1) := congrArg _ whole
    _ = row R 0 := normaliseVector_scale (row_length rotation 0) (by norm_num)

end

/-- The three axes are the rows of the matrix of the orientation. -/
theorem orientation_eq (earth : Earth) (unit : q.norm = 1) :
    earth.orientation q = fromDirectionCosineMatrix Real.sqrt (toRotationMatrix q) := by
  have rotation := toRotationMatrix_rotation unit
  have seen : ∀ v, q.unitInverse.rotate v = Matrix3.apply (toRotationMatrix q)ᵀ v := fun v => by
    rw [← apply_toRotationMatrix, toRotationMatrix_unitInverse]
  rw [Earth.orientation, seen, seen]
  simp only [quaternionFromMagAccel, third_axis earth rotation, second_axis earth rotation, first_axis rotation]
  exact congrArg (fromDirectionCosineMatrix Real.sqrt) (eta_fin_three (toRotationMatrix q)).symm

/-- What the branches compare with the bound. -/
theorem half_root_square {s t : ℝ} (same : t = 4 * (s * s)) : 1 / 2 * √t = |s| := by
  rw [same, show (4 : ℝ) * (s * s) = (2 * s) * (2 * s) by ring, Real.sqrt_mul_self_eq_abs, abs_mul, abs_two]
  ring

/-- In two of the four branches a sum and a difference are interchanged. -/
theorem fromDirectionCosineMatrix_eq (unit : q.norm = 1) :
    toVec (fromDirectionCosineMatrix Real.sqrt (toRotationMatrix q)) =
      if 0.125 ≤ |q.w| then signed (toVec q) 3
      else if 0.125 ≤ |q.z| then Function.update (signed (toVec q) 2) 0 (q.w * q.y / |q.z|)
      else if 0.125 ≤ |q.y| then signed (toVec q) 1
      else Function.update (signed (toVec q) 0) 2 (q.w * q.y / |q.x|) := by
  rw [Geometry.Quaternion.norm] at unit
  set R := toRotationMatrix q with R_eq
  have d : 1 / 2 * √(R 0 0 + R 1 1 + R 2 2 + 1) = |q.w| := by
    refine half_root_square ?_
    simp [R_eq, toRotationMatrix]
    linear_combination -4 * unit
  have c : 1 / 2 * √(-R 0 0 - R 1 1 + R 2 2 + 1) = |q.z| := by
    refine half_root_square ?_
    simp [R_eq, toRotationMatrix]
    ring
  have b : 1 / 2 * √(-R 0 0 + R 1 1 - R 2 2 + 1) = |q.y| := by
    refine half_root_square ?_
    simp [R_eq, toRotationMatrix]
    ring
  have a : 1 / 2 * √(R 0 0 - R 1 1 - R 2 2 + 1) = |q.x| := by
    refine half_root_square ?_
    simp [R_eq, toRotationMatrix]
    ring
  simp only [fromDirectionCosineMatrix, d, c, b, a, abs_abs]
  split_ifs <;> ext i <;> fin_cases i <;> simp [toVec, signed, R_eq, toRotationMatrix, mul_div_abs] <;> ring

theorem away_of_long {r : ℝ} (long : 0.125 ≤ |r|) : r ≠ 0 := by
  intro zero
  rw [zero, abs_zero] at long
  norm_num at long

/-- One of the four numbers is long. -/
theorem away_of_short (unit : q.norm = 1) (w : ¬0.125 ≤ |q.w|) (y : ¬0.125 ≤ |q.y|) (z : ¬0.125 ≤ |q.z|) : q.x ≠ 0 := by
  intro zero
  rw [Geometry.Quaternion.norm, zero] at unit
  have small : ∀ s : ℝ, ¬0.125 ≤ |s| → s * s < 0.125 * 0.125 := fun s short => by
    rw [← abs_mul_abs_self]
    exact mul_self_lt_mul_self (abs_nonneg s) (not_le.mp short)
  have first := small q.w w
  have second := small q.y y
  have third := small q.z z
  norm_num at first second third unit
  linarith

/-- The number that is divided by has the right size. -/
theorem orientation_pivot (earth : Earth) (unit : q.norm = 1) :
    ∃ p, toVec q p ≠ 0 ∧ |toVec (earth.orientation q) p| = |toVec q p| := by
  rw [orientation_eq earth unit, fromDirectionCosineMatrix_eq unit]
  split_ifs with w z y
  · refine ⟨3, away_of_long w, ?_⟩
    rw [signed_self, abs_abs]
  · refine ⟨2, away_of_long z, ?_⟩
    rw [Function.update_of_ne (by decide), signed_self, abs_abs]
  · refine ⟨1, away_of_long y, ?_⟩
    rw [signed_self, abs_abs]
  · refine ⟨0, away_of_short unit w y z, ?_⟩
    rw [Function.update_of_ne (by decide), signed_self, abs_abs]

/-- The orientation of a vehicle at rest is found, but for the sign of the quaternion, exactly in these cases. -/
theorem orientation_found_iff (earth : Earth) (unit : q.norm = 1) :
    (earth.orientation q = q ∨ earth.orientation q = -q) ↔
      0.125 ≤ |q.w| ∨ |q.z| < 0.125 ∧ 0.125 ≤ |q.y| ∨ q.w * q.y = q.x * q.z := by
  rw [orientation_eq earth unit, ← toVec_eq_iff, ← toVec_eq_iff, toVec_neg, fromDirectionCosineMatrix_eq unit]
  split_ifs with w z y
  · exact iff_of_true (signed_eq_or_neg (away_of_long w)) (.inl w)
  · have wrong : ¬|q.z| < 0.125 := not_lt.mpr z
    simp only [w, wrong, false_or, false_and]
    exact update_eq_or_neg (v := toVec q) (p := 2) (m := 0) (away_of_long z) (by decide) (q.w * q.y)
  · exact iff_of_true (signed_eq_or_neg (away_of_long y)) (.inr (.inl ⟨not_le.mp z, y⟩))
  · simp only [w, y, false_or, and_false]
    rw [mul_comm q.x]
    exact update_eq_or_neg (v := toVec q) (p := 0) (m := 2) (away_of_short unit w y z) (by decide) (q.w * q.y)

end

end Tortuga.Attitudes
