import Tortuga.Numerals
import Tortuga.Thrusters
import Mathlib.Algebra.BigOperators.Fin
import Mathlib.Analysis.Real.Sqrt
import Mathlib.Tactic.LinearCombination

/-!
The vectors, quaternions and matrices of the `math` package, over any numbers. `sqrt` is the square root.
-/
namespace Tortuga.Geometry
open scoped Tortuga.Numerals
open Tortuga.Thrusters (Vector3)

/-- `Vector2`. -/
@[ext]
structure Vector2 (R : Type) where
  x : R
  y : R
  deriving DecidableEq

namespace Vector2

section
variable {R : Type} [Ring R]

instance : Zero (Vector2 R) := ⟨⟨0, 0⟩⟩

instance : Add (Vector2 R) := ⟨fun a b => ⟨a.x + b.x, a.y + b.y⟩⟩

instance : Sub (Vector2 R) := ⟨fun a b => ⟨a.x - b.x, a.y - b.y⟩⟩

/-- `operator*` with a scalar. -/
def scale (a : Vector2 R) (scalar : R) : Vector2 R := ⟨a.x * scalar, a.y * scalar⟩

def dotProduct (a b : Vector2 R) : R := a.x * b.x + a.y * b.y

def length (sqrt : R → R) (a : Vector2 R) : R := sqrt (a.x * a.x + a.y * a.y)

variable (a b : Vector2 R) (r : R)

@[simp] theorem zero_x : (0 : Vector2 R).x = 0 := rfl
@[simp] theorem zero_y : (0 : Vector2 R).y = 0 := rfl
@[simp] theorem add_x : (a + b).x = a.x + b.x := rfl
@[simp] theorem add_y : (a + b).y = a.y + b.y := rfl
@[simp] theorem sub_x : (a - b).x = a.x - b.x := rfl
@[simp] theorem sub_y : (a - b).y = a.y - b.y := rfl
@[simp] theorem scale_x : (a.scale r).x = a.x * r := rfl
@[simp] theorem scale_y : (a.scale r).y = a.y * r := rfl

variable {a b}

theorem sub_eq_zero_iff : a - b = 0 ↔ a = b := by
  rw [Vector2.ext_iff, Vector2.ext_iff, sub_x, sub_y, zero_x, zero_y, sub_eq_zero, sub_eq_zero]

end

theorem length_nonneg (a : Vector2 ℝ) : 0 ≤ a.length Real.sqrt := Real.sqrt_nonneg _

theorem length_eq_zero {a : Vector2 ℝ} : a.length Real.sqrt = 0 ↔ a = 0 := by
  rw [length, Real.sqrt_eq_zero (add_nonneg (mul_self_nonneg _) (mul_self_nonneg _)), Vector2.ext_iff]
  exact mul_self_add_mul_self_eq_zero

end Vector2

/-! ### Matrices of two -/

/-- `Matrix2`. -/
@[ext]
structure Matrix2 (R : Type) where
  m00 : R
  m01 : R
  m10 : R
  m11 : R

namespace Matrix2
variable {R : Type} [Ring R]

/-- `IDENTITY`. -/
instance : One (Matrix2 R) := ⟨⟨1, 0, 0, 1⟩⟩

instance : Add (Matrix2 R) := ⟨fun a b => ⟨a.m00 + b.m00, a.m01 + b.m01, a.m10 + b.m10, a.m11 + b.m11⟩⟩

instance : Sub (Matrix2 R) := ⟨fun a b => ⟨a.m00 - b.m00, a.m01 - b.m01, a.m10 - b.m10, a.m11 - b.m11⟩⟩

instance : Mul (Matrix2 R) := ⟨fun a b =>
  ⟨a.m00 * b.m00 + a.m01 * b.m10, a.m00 * b.m01 + a.m01 * b.m11, a.m10 * b.m00 + a.m11 * b.m10, a.m10 * b.m01 + a.m11 * b.m11⟩⟩

/-- `operator*` with a vector. -/
def apply (a : Matrix2 R) (v : Vector2 R) : Vector2 R := ⟨a.m00 * v.x + a.m01 * v.y, a.m10 * v.x + a.m11 * v.y⟩

def transpose (a : Matrix2 R) : Matrix2 R := ⟨a.m00, a.m10, a.m01, a.m11⟩

def fromOuterProduct (lhs rhs : Vector2 R) : Matrix2 R := ⟨lhs.x * rhs.x, lhs.x * rhs.y, lhs.y * rhs.x, lhs.y * rhs.y⟩

end Matrix2

/-! ### Vectors of three -/

section
variable {R : Type} [Field R] (a b : Vector3 R) (r : R)

instance : Add (Vector3 R) := ⟨fun a b => ⟨a.x + b.x, a.y + b.y, a.z + b.z⟩⟩

instance : Sub (Vector3 R) := ⟨fun a b => ⟨a.x - b.x, a.y - b.y, a.z - b.z⟩⟩

@[simp] theorem add_x : (a + b).x = a.x + b.x := rfl
@[simp] theorem add_y : (a + b).y = a.y + b.y := rfl
@[simp] theorem add_z : (a + b).z = a.z + b.z := rfl
@[simp] theorem sub_x : (a - b).x = a.x - b.x := rfl
@[simp] theorem sub_y : (a - b).y = a.y - b.y := rfl
@[simp] theorem sub_z : (a - b).z = a.z - b.z := rfl
@[simp] theorem scale_x : (Vector3.scale r a).x = r * a.x := rfl
@[simp] theorem scale_y : (Vector3.scale r a).y = r * a.y := rfl
@[simp] theorem scale_z : (Vector3.scale r a).z = r * a.z := rfl

variable {a b}

theorem sub_add_back : a - b + b = a := by
  ext <;> simp

theorem add_eq_iff {c : Vector3 R} : a + b = c ↔ a = c - b := by
  constructor
  · rintro rfl
    ext <;> simp
  · rintro rfl
    exact sub_add_back

/-! ### Quaternions -/

/-- `Quaternion`. -/
@[ext]
structure Quaternion (R : Type) where
  x : R
  y : R
  z : R
  w : R

namespace Quaternion

/-- `Norm`. -/
def norm (q : Quaternion R) : R := q.w * q.w + q.x * q.x + q.y * q.y + q.z * q.z

def unitInverse (q : Quaternion R) : Quaternion R := ⟨-q.x, -q.y, -q.z, q.w⟩

/-- `operator*` with a vector. -/
def rotate (q : Quaternion R) (v : Vector3 R) : Vector3 R :=
  let qvec : Vector3 R := ⟨q.x, q.y, q.z⟩
  let uv := qvec.crossProduct v
  let uuv := qvec.crossProduct uv
  v + uv.scale (2 * q.w) + uuv.scale 2

/-- A turn of unit length is undone by its inverse. -/
theorem unitInverse_rotate {q : Quaternion R} (unit : q.norm = 1) (v : Vector3 R) : q.unitInverse.rotate (q.rotate v) = v := by
  simp only [norm] at unit
  -- twice the product with the axis, taken twice, is what a length other than one would leave
  ext <;> simp only [rotate, unitInverse, Vector3.crossProduct, add_x, add_y, add_z, scale_x, scale_y, scale_z]
  · linear_combination (-4 * (q.y * (q.x * v.y - q.y * v.x) - q.z * (q.z * v.x - q.x * v.z))) * unit
  · linear_combination (-4 * (q.z * (q.y * v.z - q.z * v.y) - q.x * (q.x * v.y - q.y * v.x))) * unit
  · linear_combination (-4 * (q.x * (q.z * v.x - q.x * v.z) - q.y * (q.y * v.z - q.z * v.y))) * unit

theorem rotate_unitInverse {q : Quaternion R} (unit : q.norm = 1) (v : Vector3 R) : q.rotate (q.unitInverse.rotate v) = v := by
  have inverse : q.unitInverse.unitInverse = q := by
    ext <;> simp [unitInverse]
  have length : q.unitInverse.norm = 1 := by
    rw [← unit]
    simp [norm, unitInverse]
  have back := unitInverse_rotate length v
  rwa [inverse] at back

theorem rotate_scale (q : Quaternion R) (v : Vector3 R) : q.rotate (v.scale r) = (q.rotate v).scale r := by
  ext <;> simp only [rotate, Vector3.crossProduct, add_x, add_y, add_z, scale_x, scale_y, scale_z] <;> ring

end Quaternion

/-! ### Matrices of three -/

/-- `Matrix3`. -/
abbrev Matrix3 (R : Type) := Matrix (Fin 3) (Fin 3) R

namespace Matrix3

/-- `operator*` with a vector. -/
def apply (m : Matrix3 R) (v : Vector3 R) : Vector3 R :=
  ⟨m 0 0 * v.x + m 0 1 * v.y + m 0 2 * v.z, m 1 0 * v.x + m 1 1 * v.y + m 1 2 * v.z, m 2 0 * v.x + m 2 1 * v.y + m 2 2 * v.z⟩

theorem apply_one (v : Vector3 R) : apply 1 v = v := by
  ext <;> simp [apply]

theorem apply_mul (m n : Matrix3 R) (v : Vector3 R) : apply (m * n) v = apply m (apply n v) := by
  ext <;> simp only [apply, Matrix.mul_apply, Fin.sum_univ_three] <;> ring

theorem apply_scale (m : Matrix3 R) (v : Vector3 R) : apply m (v.scale r) = (apply m v).scale r := by
  ext <;> simp only [apply, scale_x, scale_y, scale_z] <;> ring

end Matrix3

end

end Tortuga.Geometry
