import Mathlib.Analysis.Real.Sqrt
import Mathlib.LinearAlgebra.Matrix.Adjugate
import Mathlib.LinearAlgebra.UnitaryGroup
import Mathlib.Tactic.FinCases
import Mathlib.Tactic.LinearCombination
import Tortuga.Numerals

/-!
Rotations of space as matrices, and as vectors of four numbers `x`, `y`, `z` and `w` of unit length. The products of any two of the four
numbers can be found in the matrix, so that the numbers are known but for a common sign.
-/
namespace Tortuga.RotationMatrices
open Matrix
open scoped Tortuga.Numerals

/-! ### Vectors and the products of their entries -/

section
variable {n : Type} {u v : n → ℝ}

/-- The products of the entries leave only the sign open. -/
theorem eq_or_neg_of_products (same : ∀ i j, u i * u j = v i * v j) : u = v ∨ u = -v := by
  by_cases zero : v = 0
  · refine .inl (funext fun i => ?_)
    rw [zero, Pi.zero_apply]
    exact mul_self_eq_zero.mp ((same i i).trans (by rw [zero, Pi.zero_apply, mul_zero]))
  · obtain ⟨p, away⟩ := Function.ne_iff.mp zero
    rcases mul_self_eq_mul_self_iff.mp (same p p) with pivot | pivot
    · exact .inl (funext fun i => mul_right_cancel₀ away (pivot ▸ same i p : u i * v p = v i * v p))
    · refine .inr (funext fun i => mul_right_cancel₀ (neg_ne_zero.mpr away) ?_)
      rw [← pivot, same i p, Pi.neg_apply, neg_mul, pivot, mul_neg, neg_neg]

/-- Every entry with the sign of the entry at `p`. -/
noncomputable def signed (v : n → ℝ) (p : n) : n → ℝ := fun i => v i * (v p / |v p|)

theorem signed_eq_or_neg {p : n} (away : v p ≠ 0) : signed v p = v ∨ signed v p = -v := by
  rcases abs_cases (v p) with ⟨size, -⟩ | ⟨size, -⟩
  · exact .inl (funext fun i => by rw [signed, size, div_self away, mul_one])
  · exact .inr (funext fun i => by rw [signed, size, div_neg, div_self away, mul_neg, mul_one, Pi.neg_apply])

theorem mul_div_abs (s : ℝ) : s * (s / |s|) = |s| := by
  rw [← mul_div_assoc, ← abs_mul_abs_self, mul_self_div_self]

theorem signed_self (v : n → ℝ) (p : n) : signed v p p = |v p| := mul_div_abs (v p)

/-- With another number at one entry the vector is found only if that number belongs there. -/
theorem update_eq_or_neg [DecidableEq n] {p m : n} (away : v p ≠ 0) (other : m ≠ p) (a : ℝ) :
    Function.update (signed v p) m (a / |v p|) = v ∨ Function.update (signed v p) m (a / |v p|) = -v ↔ a = v m * v p := by
  have size : |v p| ≠ 0 := abs_ne_zero.mpr away
  constructor
  · rintro (kept | opposite)
    · have sign := congrFun kept p
      have entry := congrFun kept m
      rw [Function.update_of_ne other.symm, signed, mul_right_eq_self₀, or_iff_left away, div_eq_iff size, one_mul] at sign
      rwa [Function.update_self, div_eq_iff size, ← sign] at entry
    · have sign := congrFun opposite p
      have entry := congrFun opposite m
      rw [Function.update_of_ne other.symm, signed, Pi.neg_apply, ← mul_neg_one, mul_right_inj' away, div_eq_iff size, neg_one_mul] at sign
      rw [Function.update_self, div_eq_iff size, Pi.neg_apply, neg_mul, ← mul_neg, ← sign] at entry
      exact entry
  · intro same
    have plain : Function.update (signed v p) m (a / |v p|) = signed v p := by
      rw [same, mul_div_assoc]
      exact Function.update_eq_self m _
    rw [plain]
    exact signed_eq_or_neg away

/-- One column of the products, divided by twice the root of its entry in the diagonal. -/
noncomputable def fromPivot (P : Matrix n n ℝ) (p : n) : n → ℝ := fun i => P i p / (2 * √(P p p))

theorem fromPivot_products {P : Matrix n n ℝ} {p : n} (rank : ∀ j k, P p p * P j k = P j p * P k p) (pivot : 0 < P p p) (j k : n) :
    4 * (fromPivot P p j * fromPivot P p k) = P j k := by
  have root : √(P p p) * √(P p p) = P p p := Real.mul_self_sqrt pivot.le
  have away : √(P p p) ≠ 0 := (Real.sqrt_pos.mpr pivot).ne'
  rw [fromPivot, fromPivot, div_mul_div_comm, ← rank j k]
  nth_rewrite 1 [← root]
  field_simp
  ring

end

/-! ### Rotations -/

section
variable {K : Type} [Field K] {R : Matrix (Fin 3) (Fin 3) K} {v : Fin 4 → K}

/-- Four times the products of the numbers of a rotation. -/
def products (R : Matrix (Fin 3) (Fin 3) K) : Matrix (Fin 4) (Fin 4) K :=
  !![R 0 0 - R 1 1 - R 2 2 + 1, R 1 0 + R 0 1, R 2 0 + R 0 2, R 2 1 - R 1 2;
    R 1 0 + R 0 1, R 1 1 - R 2 2 - R 0 0 + 1, R 2 1 + R 1 2, R 0 2 - R 2 0;
    R 2 0 + R 0 2, R 2 1 + R 1 2, R 2 2 - R 0 0 - R 1 1 + 1, R 1 0 - R 0 1;
    R 2 1 - R 1 2, R 0 2 - R 2 0, R 1 0 - R 0 1, R 0 0 + R 1 1 + R 2 2 + 1]

theorem mul_transpose (rotation : R ∈ specialOrthogonalGroup (Fin 3) K) : R * Rᵀ = 1 :=
  (mem_orthogonalGroup_iff (Fin 3) K).mp (mem_specialOrthogonalGroup_iff.mp rotation).1

theorem row_mul_row (rotation : R ∈ specialOrthogonalGroup (Fin 3) K) (i j : Fin 3) :
    R i 0 * R j 0 + R i 1 * R j 1 + R i 2 * R j 2 = (1 : Matrix (Fin 3) (Fin 3) K) i j := by
  rw [← mul_transpose rotation, mul_apply, Fin.sum_univ_three]
  rfl

theorem column_mul_column (rotation : R ∈ specialOrthogonalGroup (Fin 3) K) (i j : Fin 3) :
    R 0 i * R 0 j + R 1 i * R 1 j + R 2 i * R 2 j = (1 : Matrix (Fin 3) (Fin 3) K) i j := by
  rw [← mul_eq_one_comm.mp (mul_transpose rotation), mul_apply, Fin.sum_univ_three]
  rfl

/-- The inverse is the transposed matrix, and the adjugate. -/
theorem adjugate_rotation (rotation : R ∈ specialOrthogonalGroup (Fin 3) K) : R.adjugate = Rᵀ := by
  have inverse := mul_adjugate R
  rw [(mem_specialOrthogonalGroup_iff.mp rotation).2, one_smul] at inverse
  calc R.adjugate = Rᵀ * R * R.adjugate := by rw [mul_eq_one_comm.mp (mul_transpose rotation), one_mul]
    _ = Rᵀ := by rw [mul_assoc, inverse, mul_one]

theorem cofactor_rotation (rotation : R ∈ specialOrthogonalGroup (Fin 3) K) (i j : Fin 3) :
    R (i + 1) (j + 1) * R (i + 2) (j + 2) - R (i + 1) (j + 2) * R (i + 2) (j + 1) = R i j := by
  have same : R.adjugate j i = R i j := congrFun (congrFun (adjugate_rotation rotation) j) i
  rw [← same, adjugate_fin_three]
  fin_cases i <;> fin_cases j <;> simp <;> ring

/-- The products of a rotation have rank one. -/
theorem products_rank (rotation : R ∈ specialOrthogonalGroup (Fin 3) K) (i j k : Fin 4) :
    products R i i * products R j k = products R j i * products R k i := by
  have symm : ∀ a b, products R a b = products R b a := fun a b => by
    fin_cases a <;> fin_cases b <;> rfl
  wlog order : j ≤ k generalizing j k
  · rw [symm j k, mul_comm (products R j i)]
    exact this k j (le_of_not_ge order)
  by_cases first : j = i
  · rw [first, symm i k]
  by_cases second : k = i
  · rw [second, mul_comm]
  have rows := row_mul_row rotation
  have columns := column_mul_column rotation
  have cofactors := cofactor_rotation rotation
  simp [Fin.forall_fin_succ] at rows columns cofactors
  fin_cases i <;> fin_cases j <;> fin_cases k <;> first
    | contradiction
    | exact absurd order (by decide)
    | (simp [products]; grind)

/-- The matrix that a vector of four turns with. -/
def matrixOf (v : Fin 4 → K) : Matrix (Fin 3) (Fin 3) K :=
  !![1 - 2 * (v 1 * v 1 + v 2 * v 2), 2 * (v 0 * v 1 - v 2 * v 3), 2 * (v 0 * v 2 + v 1 * v 3);
    2 * (v 0 * v 1 + v 2 * v 3), 1 - 2 * (v 0 * v 0 + v 2 * v 2), 2 * (v 1 * v 2 - v 0 * v 3);
    2 * (v 0 * v 2 - v 1 * v 3), 2 * (v 1 * v 2 + v 0 * v 3), 1 - 2 * (v 0 * v 0 + v 1 * v 1)]

theorem products_matrixOf (unit : v ⬝ᵥ v = 1) (i j : Fin 4) : products (matrixOf v) i j = 4 * (v i * v j) := by
  simp only [dotProduct, Fin.sum_univ_four] at unit
  fin_cases i <;> fin_cases j <;> simp [products, matrixOf] <;> grind

theorem matrixOf_rotation (unit : v ⬝ᵥ v = 1) : matrixOf v ∈ specialOrthogonalGroup (Fin 3) K := by
  simp only [dotProduct, Fin.sum_univ_four] at unit
  refine mem_specialOrthogonalGroup_iff.mpr ⟨(mem_orthogonalGroup_iff (Fin 3) K).mpr ?_, ?_⟩
  · ext i j
    fin_cases i <;> fin_cases j <;> simp [matrixOf, mul_apply, Fin.sum_univ_three] <;> grind
  · rw [det_fin_three]
    simp [matrixOf]
    grind

end

/-! ### From a matrix to a vector -/

section
variable {R : Matrix (Fin 3) (Fin 3) ℝ} {v : Fin 4 → ℝ}

theorem matrixOf_of_products (same : ∀ i j, 4 * (v i * v j) = products R i j) : v ⬝ᵥ v = 1 ∧ matrixOf v = R := by
  constructor
  · have trace : products R 0 0 + products R 1 1 + products R 2 2 + products R 3 3 = 4 := by
      simp [products]
      ring
    rw [← same, ← same, ← same, ← same] at trace
    rw [dotProduct, Fin.sum_univ_four]
    linear_combination trace / 4
  · simp only [Fin.forall_fin_succ] at same
    ext i j
    fin_cases i <;> fin_cases j <;> simp [products, matrixOf] at same ⊢ <;> grind

/-- The column of any pivot gives a vector of the rotation. -/
theorem fromPivot_rotation (rotation : R ∈ specialOrthogonalGroup (Fin 3) ℝ) {p : Fin 4} (pivot : 0 < products R p p) :
    fromPivot (products R) p ⬝ᵥ fromPivot (products R) p = 1 ∧ matrixOf (fromPivot (products R) p) = R :=
  matrixOf_of_products (fromPivot_products (products_rank rotation p) pivot)

end

end Tortuga.RotationMatrices
