import Mathlib.Algebra.BigOperators.Finprod
import Mathlib.Algebra.Order.Ring.Defs
import Mathlib.Tactic.Linarith
import Mathlib.Tactic.Ring

/-!
The correlation of a pulse with itself: it is greatest where the pulse is not moved.
-/
namespace Tortuga.Correlations

section
variable {G R : Type} [AddCommGroup G] [IsAddTorsionFree G] {p : G → R} {d : G}

/-- A pulse that ends is not periodic. -/
theorem exists_ne_of_finite [Zero R] (finite : p.support.Finite) (nonzero : p ≠ 0) (moved : d ≠ 0) : ∃ i, p (i + d) ≠ p i := by
  by_contra periodic
  push Not at periodic
  obtain ⟨i, some⟩ := Function.ne_iff.mp nonzero
  have again : ∀ n : ℕ, p (i + n • d) = p i := by
    intro n
    induction n with
    | zero => rw [zero_nsmul, add_zero]
    | succ n ih => rw [succ_nsmul, ← add_assoc, periodic, ih]
  have apart : Function.Injective fun n : ℕ => i + n • d := by
    intro m n same
    have equal : m • d = n • d := add_left_cancel same
    have difference : ((m : ℤ) - n) • d = 0 := by rw [sub_zsmul, natCast_zsmul, natCast_zsmul, equal, add_neg_cancel]
    have zero := (IsAddTorsionFree.zsmul_eq_zero_iff_left moved).mp difference
    omega
  refine Set.infinite_of_injective_forall_mem apart (fun n => ?_) finite
  rw [Function.mem_support, again]
  exact some

variable [CommRing R] [LinearOrder R] [IsStrictOrderedRing R]

/-- The inequality of Cauchy and Schwarz for a pulse and the same pulse moved, which are not multiples. -/
theorem correlation_lt (finite : p.support.Finite) (nonzero : p ≠ 0) (moved : d ≠ 0) :
    ∑ᶠ i, p (i + d) * p i < ∑ᶠ i, p i * p i := by
  have shifted : (fun i => p (i + d)).support.Finite := finite.preimage (add_left_injective d).injOn
  have product : (fun i => p (i + d) * p i).support.Finite := finite.subset (Function.support_mul_subset_right _ _)
  have energy : (fun i => p i * p i).support.Finite := finite.subset (Function.support_mul_subset_right _ _)
  have other : (fun i => p (i + d) * p (i + d)).support.Finite := shifted.subset (Function.support_mul_subset_right _ _)
  have same : ∑ᶠ i, p (i + d) * p (i + d) = ∑ᶠ i, p i * p i := finsum_comp_equiv (Equiv.addRight d) (f := fun i => p i * p i)
  have squares : ∑ᶠ i, (p (i + d) - p i) * (p (i + d) - p i) =
      ∑ᶠ i, p (i + d) * p (i + d) + ∑ᶠ i, p i * p i - 2 * ∑ᶠ i, p (i + d) * p i := by
    have twice : (fun i => 2 * (p (i + d) * p i)).support.Finite := product.subset (Function.support_mul_subset_right _ _)
    have both : (fun i => p (i + d) * p (i + d) + p i * p i).support.Finite := (other.union energy).subset (Function.support_add _ _)
    rw [mul_finsum, ← finsum_add_distrib other energy, ← finsum_sub_distrib both twice]
    exact finsum_congr fun i => by ring
  have positive : 0 < ∑ᶠ i, (p (i + d) - p i) * (p (i + d) - p i) := by
    obtain ⟨i, differ⟩ := exists_ne_of_finite finite nonzero moved
    refine finsum_pos (fun i => mul_self_nonneg _) ⟨i, mul_self_pos.mpr (sub_ne_zero.mpr differ)⟩ ?_
    exact ((shifted.union finite).subset (Function.support_sub _ _)).subset (Function.support_mul_subset_right _ _)
  linarith

end

end Tortuga.Correlations
