import Mathlib.Algebra.BigOperators.Ring.Finset
import Mathlib.Algebra.Order.BigOperators.Group.Finset
import Mathlib.Data.Matrix.Mul
import Mathlib.Tactic.Linarith
import Mathlib.Tactic.LinearCombination

/-!
Steps against a direction whose result is brought back into a box. Bringing back never goes away from a point of the box; so the
sum of what the steps gain on such a point is bounded by the distance at the start and the lengths of the steps.
-/
namespace Tortuga.BoxedDescent
open Matrix

section
variable {ι K : Type} [Fintype ι] [Field K] [LinearOrder K] [IsStrictOrderedRing K] {low high v a : ι → K}

/-- What is above the box goes to its top, what is below to its bottom. -/
def boxed (low high v : ι → K) : ι → K := fun i => if high i < v i then high i else if v i < low i then low i else v i

/-- The square of the distance. -/
def distance (v a : ι → K) : K := (v - a) ⬝ᵥ (v - a)

omit [Fintype ι] [Field K] [IsStrictOrderedRing K] in
theorem boxed_inside (proper : ∀ i, low i ≤ high i) (i : ι) : low i ≤ boxed low high v i ∧ boxed low high v i ≤ high i := by
  rw [boxed]
  split_ifs with above below
  · exact ⟨proper i, le_rfl⟩
  · exact ⟨le_rfl, proper i⟩
  · exact ⟨not_lt.mp below, not_lt.mp above⟩

theorem distance_nonneg : 0 ≤ distance v a := Finset.sum_nonneg fun _ _ => mul_self_nonneg _

/-- In each place the point of the box is on the side to which the value is brought back. -/
theorem boxed_nearer (inside : ∀ i, low i ≤ a i ∧ a i ≤ high i) : distance (boxed low high v) a ≤ distance v a := by
  refine Finset.sum_le_sum fun i _ => ?_
  obtain ⟨bottom, top⟩ := inside i
  simp only [Pi.sub_apply, boxed]
  split_ifs with above below
  · nlinarith
  · nlinarith
  · exact le_rfl

/-- One step. -/
def descend (low high v : ι → K) (t : K) (g : ι → K) : ι → K := boxed low high (v - t • g)

/-- What a step gains on a point of the box is paid for by the distance and by the length of the step. -/
theorem descend_gain (inside : ∀ i, low i ≤ a i ∧ a i ≤ high i) (t : K) (g : ι → K) :
    2 * t * (g ⬝ᵥ (v - a)) ≤ distance v a - distance (descend low high v t g) a + t ^ 2 * (g ⬝ᵥ g) := by
  have nearer : distance (descend low high v t g) a ≤ distance (v - t • g) a := boxed_nearer inside
  have moved : distance (v - t • g) a = distance v a - 2 * t * (g ⬝ᵥ (v - a)) + t ^ 2 * (g ⬝ᵥ g) := by
    have apart : v - t • g - a = (v - a) - t • g := by rw [sub_right_comm]
    rw [distance, distance, apart]
    generalize v - a = e
    rw [sub_dotProduct, dotProduct_sub, dotProduct_sub, smul_dotProduct, dotProduct_smul, smul_dotProduct, dotProduct_smul,
      dotProduct_comm e g]
    simp only [smul_eq_mul]
    ring
  linarith

/-- The states of a run before its steps, with what comes in then. -/
def visited {State Input : Type} (next : State → Input → State) : State → List Input → List (State × Input)
  | _, [] => []
  | s, i :: inputs => (s, i) :: visited next (next s i) inputs

/-- Over a run of steps the gains are bounded by the distance at the start. -/
theorem gains_le {State Input : Type} (place : State → ι → K) (next : State → Input → State) {t : State → Input → K}
    {g : State → Input → ι → K} (step : ∀ s i, place (next s i) = descend low high (place s) (t s i) (g s i))
    (inside : ∀ i, low i ≤ a i ∧ a i ≤ high i) (s : State) (inputs : List Input) :
    ((visited next s inputs).map fun u => 2 * t u.1 u.2 * (g u.1 u.2 ⬝ᵥ (place u.1 - a))).sum ≤
      distance (place s) a - distance (place (inputs.foldl next s)) a +
        ((visited next s inputs).map fun u => t u.1 u.2 ^ 2 * (g u.1 u.2 ⬝ᵥ g u.1 u.2)).sum := by
  induction inputs generalizing s with
  | nil => simp [visited]
  | cons i inputs ih =>
    have first := descend_gain (v := place s) inside (t s i) (g s i)
    have rest := ih (next s i)
    rw [← step] at first
    rw [visited, List.map_cons, List.map_cons, List.sum_cons, List.sum_cons, List.foldl_cons]
    linarith

end

end Tortuga.BoxedDescent
