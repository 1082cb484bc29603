import Mathlib.LinearAlgebra.Matrix.BilinearForm
import Mathlib.LinearAlgebra.Matrix.PosDef
import Mathlib.Tactic.LinearCombination

/-!
Covariances, and what a measurement of one direction makes of them. A covariance is a positive
definite matrix; its value at a direction is the variance there.
-/
namespace Tortuga.Covariances
open Matrix

variable {n : Type} [Fintype n] {A P Q : Matrix n n ℝ} {h x y : n → ℝ} {r : ℝ}

/-- The variance in a direction. -/
def variance (P : Matrix n n ℝ) (h : n → ℝ) : ℝ := h ⬝ᵥ P *ᵥ h

theorem variance_pos (positive : P.PosDef) (nonzero : h ≠ 0) : 0 < variance P h := positive.dotProduct_mulVec_pos nonzero

theorem variance_nonneg (positive : P.PosDef) (h : n → ℝ) : 0 ≤ variance P h :=
  positive.posSemidef.dotProduct_mulVec_nonneg h

/-- A linear step with noise. -/
theorem predict_posDef (positive : P.PosDef) (noise : Q.PosDef) : (A * P * Aᵀ + Q).PosDef := by
  have moved : (A * P * Aᵀ).PosSemidef := positive.posSemidef.mul_mul_conjTranspose_same A
  exact noise.posSemidef_add moved

/-- The inequality of Cauchy and Schwarz for a covariance. -/
theorem covariance_sq_le (positive : P.PosDef) (x h : n → ℝ) : (x ⬝ᵥ P *ᵥ h) ^ 2 ≤ variance P x * variance P h := by
  classical
  have symmetric : P.toBilin'.IsSymm := Matrix.isSymm_toBilin'_iff_isSymm.mpr positive.isHermitian
  have nonneg (v : n → ℝ) : 0 ≤ P.toBilin' v v := by
    rw [toBilin'_apply']
    exact variance_nonneg positive v
  have bound := LinearMap.BilinForm.apply_sq_le_of_symm P.toBilin' nonneg ⟨symmetric.eq⟩ x h
  rwa [toBilin'_apply', toBilin'_apply', toBilin'_apply'] at bound

/-! ### A measurement -/

/-- The weights that a measurement of direction `h` with error of variance `r` gets. -/
noncomputable def gain (P : Matrix n n ℝ) (h : n → ℝ) (r : ℝ) : n → ℝ := (1 / (variance P h + r)) • P *ᵥ h

/-- What is left of the covariance after the measurement. -/
noncomputable def condition [DecidableEq n] (P : Matrix n n ℝ) (h : n → ℝ) (r : ℝ) : Matrix n n ℝ :=
  (1 - vecMulVec (gain P h r) h) * P

theorem innovation_pos (positive : P.PosDef) (error : 0 < r) : 0 < variance P h + r :=
  add_pos_of_nonneg_of_pos (variance_nonneg positive h) error

/-- The measured direction gets a weight between none and all. -/
theorem gain_mem (positive : P.PosDef) (error : 0 < r) (nonzero : h ≠ 0) : h ⬝ᵥ gain P h r ∈ Set.Ioo 0 1 := by
  have direction := variance_pos positive nonzero
  have innovation : 0 < variance P h + r := innovation_pos positive error
  have value : h ⬝ᵥ gain P h r = variance P h / (variance P h + r) := by
    rw [gain, dotProduct_smul, smul_eq_mul, one_div_mul_eq_div, variance]
  rw [value]
  exact ⟨div_pos direction innovation, (div_lt_one innovation).mpr (lt_add_of_pos_right _ error)⟩

variable [DecidableEq n]

/-- The rest is the old covariance less a product of a vector with itself. -/
theorem condition_eq (symmetric : P.IsHermitian) :
    condition P h r = P - (1 / (variance P h + r)) • vecMulVec (P *ᵥ h) (P *ᵥ h) := by
  have same : Pᵀ = P := symmetric
  have row : h ᵥ* P = P *ᵥ h := by
    rw [← vecMul_transpose, same]
  rw [condition, Matrix.sub_mul, Matrix.one_mul, gain, smul_vecMulVec, Matrix.smul_mul, vecMulVec_mul, row]

theorem condition_isHermitian (symmetric : P.IsHermitian) : (condition P h r).IsHermitian := by
  have same : Pᵀ = P := symmetric
  have transposed : (condition P h r)ᵀ = condition P h r := by
    rw [condition_eq symmetric, transpose_sub, transpose_smul, transpose_vecMulVec, same]
  exact transposed

theorem condition_variance (symmetric : P.IsHermitian) (x : n → ℝ) :
    variance (condition P h r) x = variance P x - (x ⬝ᵥ P *ᵥ h) ^ 2 / (variance P h + r) := by
  rw [condition_eq symmetric, variance, sub_mulVec, dotProduct_sub, smul_mulVec, dotProduct_smul, vecMulVec_mulVec, dotProduct_smul,
    dotProduct_comm (P *ᵥ h) x]
  simp only [variance, smul_eq_mul, op_smul_eq_mul]
  ring

/-- A measurement with an error leaves a covariance. -/
theorem condition_posDef (positive : P.PosDef) (error : 0 < r) : (condition P h r).PosDef := by
  refine .of_dotProduct_mulVec_pos (condition_isHermitian positive.isHermitian) fun x nonzero => ?_
  have innovation : 0 < variance P h + r := innovation_pos positive error
  have direction := variance_pos positive nonzero
  have value := condition_variance (h := h) (r := r) positive.isHermitian x
  have below : (x ⬝ᵥ P *ᵥ h) ^ 2 < variance P x * (variance P h + r) := by
    calc (x ⬝ᵥ P *ᵥ h) ^ 2 ≤ variance P x * variance P h := covariance_sq_le positive x h
      _ < variance P x * (variance P h + r) := by gcongr; exact lt_add_of_pos_right _ error
  have left : 0 < variance (condition P h r) x := by
    rw [value, sub_pos, div_lt_iff₀ innovation]
    exact below
  exact left

/-- It lowers the variance of what it measures. -/
theorem condition_variance_lt (positive : P.PosDef) (error : 0 < r) (nonzero : h ≠ 0) : variance (condition P h r) h < variance P h := by
  have direction := variance_pos positive nonzero
  have innovation : 0 < variance P h + r := innovation_pos positive error
  rw [condition_variance positive.isHermitian, sub_lt_self_iff]
  exact div_pos (pow_pos direction 2) innovation

end Tortuga.Covariances
