import Mathlib.Algebra.Polynomial.Roots
import Mathlib.Analysis.Calculus.ContDiff.Polynomial
import Mathlib.Analysis.Calculus.Deriv.Polynomial
import Mathlib.Analysis.Calculus.IteratedDeriv.Lemmas
import Mathlib.Analysis.InnerProductSpace.Basic
import Mathlib.Order.Interval.Set.Infinite
import Mathlib.Topology.Algebra.Polynomial

/-!
Curves that rest, follow a polynomial for a while, and rest again: where they are continuous,
and what their derivatives are while they move.
-/
namespace Tortuga.Curves
open Polynomial Topology

variable {p : ℝ[X]} {f g : ℝ → ℝ} {a T t first last v : ℝ} {k : ℕ}

/-- The curve has a `k`-th derivative at a time, and it is `v`. -/
def HasDerivative (k : ℕ) (f : ℝ → ℝ) (t v : ℝ) : Prop := ContDiffAt ℝ k f t ∧ iteratedDeriv k f t = v

/-- The polynomial is followed from the time `a` on for a time `T`. -/
noncomputable def ride (p : ℝ[X]) (a T first last t : ℝ) : ℝ :=
  if t - a < 0 then first else if T ≤ t - a then last else p.eval (t - a)

theorem ride_before (early : t < a) : ride p a T first last t = first := if_pos (sub_neg.mpr early)

theorem ride_after (nonneg : 0 ≤ T) (late : a + T ≤ t) : ride p a T first last t = last := by
  have started : ¬ t - a < 0 := by linarith
  have past : T ≤ t - a := by linarith
  rw [ride, if_neg started, if_pos past]

theorem ride_within (start : a ≤ t) (stop : t < a + T) : ride p a T first last t = p.eval (t - a) := by
  have started : ¬ t - a < 0 := by linarith
  have going : ¬ T ≤ t - a := by linarith
  rw [ride, if_neg started, if_neg going]

/-- Where the ends meet, the time is held back at both of them. -/
theorem ride_eq (nonneg : 0 ≤ T) (t : ℝ) : ride p a T (p.eval 0) (p.eval T) t = p.eval (max 0 (min T (t - a))) := by
  rcases lt_or_ge t a with early | started
  · have low : min T (t - a) ≤ 0 := (min_le_right _ _).trans (by linarith)
    rw [ride_before early, max_eq_left low]
  · rcases lt_or_ge t (a + T) with going | past
    · have inside : min T (t - a) = t - a := min_eq_right (by linarith)
      rw [ride_within started going, inside, max_eq_right (sub_nonneg.mpr started)]
    · have whole : min T (t - a) = T := min_eq_left (by linarith)
      rw [ride_after nonneg past, whole, max_eq_right nonneg]

/-- A polynomial that is followed for no time does not matter. -/
theorem ride_none (a : ℝ) (p : ℝ[X]) : ride p a 0 first first = fun _ => first := by
  funext t
  rcases lt_or_ge t a with early | started
  · exact ride_before early
  · exact ride_after le_rfl (by rwa [add_zero])

theorem ride_continuous (nonneg : 0 ≤ T) (ends : 0 < T → p.eval 0 = first ∧ p.eval T = last) (still : T = 0 → first = last) :
    Continuous (ride p a T first last) := by
  rcases nonneg.eq_or_lt' with none | positive
  · rw [none, ← still none, ride_none]
    exact continuous_const
  · obtain ⟨start, stop⟩ := ends positive
    have same : ride p a T first last = fun t => p.eval (max 0 (min T (t - a))) := by
      funext t
      rw [← start, ← stop, ride_eq nonneg]
    rw [same]
    exact p.continuous.comp (continuous_const.max (continuous_const.min (continuous_id.sub continuous_const)))

/-! ### Derivatives -/

theorem deriv_iterate_eval (p : ℝ[X]) (k : ℕ) : deriv^[k] (fun s => p.eval s) = fun s => (derivative^[k] p).eval s := by
  induction k generalizing p with
  | zero => rfl
  | succ k ih =>
    have one : deriv (fun s => p.eval s) = fun s => p.derivative.eval s := funext fun s => p.deriv
    rw [Function.iterate_succ_apply, one, ih, Function.iterate_succ_apply]

theorem hasDerivative_eval (p : ℝ[X]) (k : ℕ) (a t : ℝ) :
    HasDerivative k (fun s => p.eval (s - a)) t ((derivative^[k] p).eval (t - a)) := by
  refine ⟨?_, ?_⟩
  · have smooth : ContDiff ℝ k fun s => p.eval s := contDiff_aeval p k
    exact (smooth.comp (contDiff_id.sub contDiff_const)).contDiffAt
  · rw [iteratedDeriv_comp_sub_const k (fun s => p.eval s) a, iteratedDeriv_eq_iterate, deriv_iterate_eval]

theorem HasDerivative.congr (derivative : HasDerivative k f t v) (same : g =ᶠ[𝓝 t] f) : HasDerivative k g t v :=
  ⟨derivative.1.congr_of_eventuallyEq same, by rw [same.iteratedDeriv_eq k, derivative.2]⟩

theorem HasDerivative.unique {w : ℝ} (derivative : HasDerivative k f t v) (other : HasDerivative k f t w) : v = w :=
  derivative.2.symm.trans other.2

theorem ride_hasDerivative (k : ℕ) (start : a < t) (stop : t < a + T) :
    HasDerivative k (ride p a T first last) t ((derivative^[k] p).eval (t - a)) := by
  refine (hasDerivative_eval p k a t).congr ?_
  filter_upwards [Ioo_mem_nhds start stop] with s inside
  exact ride_within inside.1.le inside.2

/-! ### A polynomial at rest -/

theorem eq_zero_of_eval {b c : ℝ} (less : b < c) (zero : ∀ t, b < t → t < c → p.eval (t - a) = 0) : p = 0 := by
  refine p.eq_zero_of_infinite_isRoot ?_
  refine (Set.Ioo_infinite (sub_lt_sub_right less a)).mono fun s inside => ?_
  have root := zero (s + a) (by linarith [inside.1]) (by linarith [inside.2])
  rwa [add_sub_cancel_right] at root

/-- The same while from another start is not wholly covered: for a part of it the time is outside. -/
theorem exists_outside (other : a ≠ 0) (positive : 0 < T) :
    ∃ b c, b < c ∧ ∀ t, b < t → t < c → (a < t ∧ t < a + T) ∧ (t < 0 ∨ T ≤ t) := by
  rcases lt_or_gt_of_ne other with early | late
  · refine ⟨a, min 0 (a + T), lt_min early (by linarith), fun t after before => ?_⟩
    exact ⟨⟨after, before.trans_le (min_le_right _ _)⟩, .inl (before.trans_le (min_le_left _ _))⟩
  · refine ⟨max a T, a + T, max_lt (by linarith) (by linarith), fun t after before => ?_⟩
    exact ⟨⟨(le_max_left _ _).trans_lt after, before⟩, .inr ((le_max_right _ _).trans after.le)⟩

end Tortuga.Curves
