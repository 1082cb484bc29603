import Mathlib.LinearAlgebra.Lagrange
import Mathlib.LinearAlgebra.Matrix.Rank
import Mathlib.LinearAlgebra.Matrix.ToLinearEquiv

/-!
Least squares over an ordered field: a fit of data that some parameters give exactly finds these
parameters. The columns of powers of different nodes are fit for it.
-/
namespace Tortuga.LeastSquares
open Matrix Polynomial

section
variable {K : Type} [Field K] [LinearOrder K] [IsStrictOrderedRing K] {m n : Type} [Fintype m] [Fintype n] [DecidableEq n]
  {J : Matrix m n K}

/-- The normal equations have one solution where different parameters give different data. -/
theorem det_gram_ne_zero (injective : Function.Injective J.mulVec) : (Jᵀ * J).det ≠ 0 := by
  intro singular
  obtain ⟨v, nonzero, flat⟩ := Matrix.exists_mulVec_eq_zero_iff.mpr singular
  have kernel : v ∈ LinearMap.ker (Jᵀ * J).mulVecLin := flat
  rw [ker_mulVecLin_transpose_mul_self] at kernel
  have same : J.mulVec v = J.mulVec 0 := by
    rw [mulVec_zero]
    exact kernel
  exact nonzero (injective same)

end

section
variable {K : Type} [Field K] {m n : Type} [Fintype m] [Fintype n] [DecidableEq n] {J : Matrix m n K} {inverse : Matrix n n K}

/-- A fit of exact data. -/
theorem fit_exact (exact : inverse * (Jᵀ * J) = 1) (a : n → K) : (inverse * Jᵀ).mulVec (J.mulVec a) = a := by
  rw [mulVec_mulVec, Matrix.mul_assoc, exact, one_mulVec]

end

section
variable {K : Type} [Field K] {m : Type} {nodes : m → K} {n : ℕ}

/-- The powers of each node. -/
def powers (nodes : m → K) (n : ℕ) : Matrix m (Fin n) K := fun i k => nodes i ^ (k : ℕ)

/-- The polynomial with the coefficients. -/
noncomputable def polynomial (a : Fin n → K) : K[X] := ∑ k, C (a k) * X ^ (k : ℕ)

theorem powers_mulVec (a : Fin n → K) (i : m) : (powers nodes n).mulVec a i = (polynomial a).eval (nodes i) := by
  rw [polynomial, eval_finsetSum, mulVec, dotProduct]
  refine Finset.sum_congr rfl fun k _ => ?_
  rw [eval_mul, eval_pow, eval_C, eval_X, powers, mul_comm]

theorem polynomial_coeff (a : Fin n → K) (k : Fin n) : (polynomial a).coeff k = a k := by
  simp [polynomial, coeff_C_mul, coeff_X_pow, Fin.val_inj]

/-- As many coefficients as there are nodes are told apart by the values at them. -/
theorem powers_injective [Fintype m] (distinct : Function.Injective nodes) (few : n ≤ Fintype.card m) :
    Function.Injective (powers nodes n).mulVec := by
  intro a b same
  have low (c : Fin n → K) : (polynomial c).degree < (Finset.univ : Finset m).card := by
    have bound : (n : WithBot ℕ) ≤ (Finset.univ : Finset m).card := Nat.cast_le.mpr few
    exact (degree_sum_fin_lt c).trans_le bound
  have equal : polynomial a = polynomial b := by
    refine eq_of_degrees_lt_of_eval_index_eq Finset.univ distinct.injOn (low a) (low b) fun i _ => ?_
    rw [← powers_mulVec, ← powers_mulVec, same]
  funext k
  rw [← polynomial_coeff a, ← polynomial_coeff b, equal]

end

end Tortuga.LeastSquares
