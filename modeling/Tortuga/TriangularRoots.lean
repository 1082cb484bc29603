import Mathlib.Algebra.Order.Star.Real
import Mathlib.LinearAlgebra.Matrix.PosDef
import Tortuga.TriangularFactors

/-!
A symmetric matrix that is given by its lower triangle, and its root: a lower triangle with a positive diagonal whose product with
its transpose is the matrix. The rows of the root follow from each other, and what is left at a diagonal is positive in every
row if and only if the matrix is positive definite.
-/
namespace Tortuga.TriangularRoots
open Matrix

section
variable {State Error : Type} {n : ℕ} {f : State → Fin n → Except Error State} {holds : ℕ → State → Prop} {s : State}

/-- A loop over all places that may fail: what each step keeps holds at the end, or before the step that fails. -/
theorem foldlM_finRange (step : ∀ (i : Fin n) s s', holds i s → f s i = .ok s' → holds (i + 1) s') (start : holds 0 s) :
    (∃ s', (List.finRange n).foldlM f s = .ok s' ∧ holds n s') ∨
      ∃ (error : Error) (i : Fin n) (before : State),
        (List.finRange n).foldlM f s = .error error ∧ holds i before ∧ f before i = .error error := by
  have rest (left k : ℕ) (s : State) (here : k + left = n) (now : holds k s) :
      (∃ s', ((List.finRange n).drop k).foldlM f s = .ok s' ∧ holds n s') ∨
        ∃ (error : Error) (i : Fin n) (before : State),
          ((List.finRange n).drop k).foldlM f s = .error error ∧ holds i before ∧ f before i = .error error := by
    induction left generalizing k s with
    | zero =>
      obtain rfl : k = n := by omega
      rw [List.drop_of_length_le (by rw [List.length_finRange])]
      exact .inl ⟨s, rfl, now⟩
    | succ left ih =>
      have room : k < n := by omega
      have more : (List.finRange n).drop k = ⟨k, room⟩ :: (List.finRange n).drop (k + 1) := by
        rw [List.drop_eq_getElem_cons (by rwa [List.length_finRange]), List.getElem_finRange]
        rfl
      rw [more, List.foldlM_cons]
      cases next : f s ⟨k, room⟩ with
      | error error => exact .inr ⟨error, _, s, rfl, now, next⟩
      | ok s' => exact ih (k + 1) s' (by omega) (step _ s s' now next)
  exact rest n 0 s (Nat.zero_add n) start

end

section
variable {n : ℕ} {A m : Matrix (Fin n) (Fin n) ℝ} {k : ℕ}

/-- The symmetric matrix that a lower triangle stands for. -/
def symmetric (A : Matrix (Fin n) (Fin n) ℝ) : Matrix (Fin n) (Fin n) ℝ := of fun r c => A (max r c) (min r c)

/-- The lower triangle, with the diagonal. -/
def triangle (m : Matrix (Fin n) (Fin n) ℝ) : Matrix (Fin n) (Fin n) ℝ := of fun r c => if c ≤ r then m r c else 0

theorem symmetric_below {r c : Fin n} (below : c ≤ r) : symmetric A r c = A r c := by
  rw [symmetric, of_apply, max_eq_left below, min_eq_right below]

theorem symmetric_comm (r c : Fin n) : symmetric A r c = symmetric A c r := by
  rw [symmetric, of_apply, of_apply, max_comm, min_comm]

theorem triangle_below {r c : Fin n} (below : c ≤ r) : triangle m r c = m r c := if_pos below

theorem triangle_above {r c : Fin n} (above : r < c) : triangle m r c = 0 := if_neg (not_le.mpr above)

/-- The sum over the places up to the diagonal. -/
theorem sum_upto (f : Fin n → ℝ) (c : Fin n) : ∑ j with j ≤ c, f j = ∑ j with j < c, f j + f c := by
  have split : (Finset.univ.filter fun j => j ≤ c) = insert c (Finset.univ.filter fun j => j < c) := by
    ext j
    simp only [Finset.mem_filter, Finset.mem_univ, true_and, Finset.mem_insert]
    exact le_iff_eq_or_lt
  rw [split, Finset.sum_insert (by simp), add_comm]

/-- Where two rows end before a place or at it, their product is that of the places up to there. -/
theorem mul_transpose_apply {F : Matrix (Fin n) (Fin n) ℝ} (D : Fin n → ℝ) (triangular : ∀ r c, r < c → F r c = 0) (r c : Fin n) :
    (F * diagonal D * Fᵀ) r c = ∑ j with j ≤ c, F r j * D j * F c j := by
  rw [mul_apply, Finset.sum_filter]
  refine Finset.sum_congr rfl fun j _ => ?_
  rw [mul_diagonal, transpose_apply]
  split_ifs with upto
  · rfl
  · rw [triangular c j (not_le.mp upto), mul_zero]

theorem det_triangular {F : Matrix (Fin n) (Fin n) ℝ} (triangular : ∀ r c, r < c → F r c = 0) (diagonal : ∀ i, F i i ≠ 0) : IsUnit F := by
  have lower : F.IsLowerTriangular := fun r c above => triangular r c above
  rw [isUnit_iff_isUnit_det, det_of_isLowerTriangular _ lower]
  exact (Finset.prod_ne_zero_iff.mpr fun i _ => diagonal i).isUnit

/-- A triangle with a diagonal without zeros is the root of a positive definite matrix. -/
theorem posDef_mul_transpose {L : Matrix (Fin n) (Fin n) ℝ} (triangular : ∀ r c, r < c → L r c = 0) (diagonal : ∀ i, L i i ≠ 0) :
    (L * Lᵀ).PosDef := by
  have injective := vecMul_injective_iff_isUnit.mpr (det_triangular triangular diagonal)
  have root := PosDef.mul_conjTranspose_self L injective
  rwa [conjTranspose_eq_transpose_of_trivial] at root

/-- Where a positive definite matrix agrees with a product of triangles and a diagonal up to a place, the diagonal is positive there. -/
theorem diagonal_pos {F : Matrix (Fin n) (Fin n) ℝ} {D : Fin n → ℝ} {i : Fin n} (triangular : ∀ r c, r < c → F r c = 0)
    (ones : ∀ i, F i i ≠ 0) (agree : ∀ r c, r ≤ i → c ≤ i → A r c = (F * diagonal D * Fᵀ) r c) (posDef : A.PosDef) : 0 < D i := by
  have unit := det_triangular triangular ones
  have inverse : F⁻¹ * F = 1 := nonsing_inv_mul F ((isUnit_iff_isUnit_det F).mp unit)
  -- The row of the inverse ends at the place too, so that only the part up to there matters.
  have ends (j : Fin n) (after : i < j) : F⁻¹ i j = 0 := by
    have lower : F.IsLowerTriangular := fun r c above => triangular r c above
    let _ := unit.invertible
    exact blockTriangular_inv_of_blockTriangular lower after
  have entry : (F⁻¹ * A * F⁻¹ᵀ) i i = D i := by
    calc (F⁻¹ * A * F⁻¹ᵀ) i i
      _ = (F⁻¹ * (F * diagonal D * Fᵀ) * F⁻¹ᵀ) i i := by
        simp only [mul_apply (M := F⁻¹ * _), mul_apply (M := F⁻¹), transpose_apply (M := F⁻¹)]
        refine Finset.sum_congr rfl fun c _ => ?_
        by_cases after : i < c
        · rw [ends c after, mul_zero, mul_zero]
        · congr 1
          refine Finset.sum_congr rfl fun r _ => ?_
          by_cases later : i < r
          · rw [ends r later, zero_mul, zero_mul]
          · rw [agree r c (not_lt.mp later) (not_lt.mp after)]
      _ = (F⁻¹ * F * diagonal D * (F⁻¹ * F)ᵀ) i i := by
        rw [transpose_mul]
        simp only [Matrix.mul_assoc]
      _ = D i := by rw [inverse, transpose_one, Matrix.one_mul, Matrix.mul_one, diagonal_apply_eq]
  have unit_inverse : IsUnit F⁻¹ := isUnit_nonsing_inv_iff.mpr unit
  have conjugate := (IsUnit.posDef_star_right_conjugate_iff unit_inverse).mpr posDef
  rw [star_eq_conjTranspose, conjTranspose_eq_transpose_of_trivial] at conjugate
  rw [← entry]
  exact conjugate.diag_pos

/-! ### The rows of the root -/

variable {i : Fin n} {row : Fin n → ℝ}

/-- The first rows are those of the root, and the rest is as it was. -/
structure Rooted (A m : Matrix (Fin n) (Fin n) ℝ) (k : ℕ) : Prop where
  positive : ∀ r : Fin n, (r : ℕ) < k → 0 < m r r
  product : ∀ r c : Fin n, (r : ℕ) < k → c ≤ r → ∑ j with j ≤ c, m r j * m c j = A r c
  rest : ∀ r c : Fin n, k ≤ (r : ℕ) ∨ r < c → m r c = A r c

theorem rooted_zero (A : Matrix (Fin n) (Fin n) ℝ) : Rooted A A 0 :=
  ⟨fun _ none => absurd none (Nat.not_lt_zero _), fun _ _ none => absurd none (Nat.not_lt_zero _), fun _ _ _ => rfl⟩

/-- What the root of the rows before leaves of the diagonal. -/
def remainder (A : Matrix (Fin n) (Fin n) ℝ) (i : Fin n) (row : Fin n → ℝ) : ℝ := A i i - ∑ j with j < i, row j * row j

/-- The next row has the product that is asked for with each row before; what is left of the diagonal is its last square. -/
theorem Rooted.next (rooted : Rooted A m i) (before : ∀ c, c < i → ∑ j with j ≤ c, row j * m c j = A i c)
    (after : ∀ c, i < c → row c = A i c) (positive : 0 < row i) (square : row i * row i = remainder A i row) :
    Rooted A (Function.update m i row) (i + 1) := by
  have other {r : Fin n} (away : r ≠ i) : Function.update m i row r = m r := Function.update_of_ne away _ _
  have same : Function.update m i row i = row := Function.update_self ..
  have upto {r : Fin n} (first : (r : ℕ) < i + 1) : r ≤ i := Nat.lt_succ_iff.mp first
  refine ⟨fun r first => ?_, fun r c first below => ?_, fun r c rest => ?_⟩
  · rcases (upto first).eq_or_lt with rfl | earlier
    · rwa [same]
    · rw [other earlier.ne]
      exact rooted.positive r earlier
  · rcases (upto first).eq_or_lt with rfl | earlier
    · rcases below.eq_or_lt with rfl | below
      · rw [same, sum_upto, square, remainder, add_sub_cancel]
      · rw [same, other below.ne]
        exact before c below
    · rw [other earlier.ne, other (below.trans_lt earlier).ne]
      exact rooted.product r c earlier below
  · rcases lt_trichotomy r i with earlier | rfl | later
    · rw [other earlier.ne]
      exact rooted.rest r c (rest.imp_left fun late => absurd late (not_le.mpr (Nat.lt_succ_of_lt earlier)))
    · rw [same]
      exact after c (rest.resolve_left (Nat.not_succ_le_self _))
    · rw [other later.ne']
      exact rooted.rest r c (.inl (le_of_lt later))

/-- For a positive definite matrix something is left of every diagonal. -/
theorem Rooted.remainder_pos (rooted : Rooted A m i) (before : ∀ c, c < i → ∑ j with j ≤ c, row j * m c j = A i c)
    (posDef : (symmetric A).PosDef) : 0 < remainder A i row := by
  let F : Matrix (Fin n) (Fin n) ℝ :=
    of fun r c => if r < i then triangle m r c else if r = i ∧ c < i then row c else (1 : Matrix (Fin n) (Fin n) ℝ) r c
  let D : Fin n → ℝ := Function.update 1 i (remainder A i row)
  have earlier {r : Fin n} (first : r < i) (c : Fin n) : F r c = triangle m r c := if_pos first
  have here {c : Fin n} (left : c < i) : F i c = row c := (if_neg (lt_irrefl i)).trans (if_pos ⟨rfl, left⟩)
  have one : F i i = 1 := (if_neg (lt_irrefl i)).trans ((if_neg fun both => lt_irrefl i both.2).trans (one_apply_eq i))
  have later {r : Fin n} (last : i < r) (c : Fin n) : F r c = (1 : Matrix (Fin n) (Fin n) ℝ) r c :=
    (if_neg last.not_gt).trans (if_neg fun both => last.ne' both.1)
  have triangular (r c : Fin n) (above : r < c) : F r c = 0 := by
    rcases lt_trichotomy r i with first | rfl | last
    · rw [earlier first, triangle_above above]
    · exact (if_neg (lt_irrefl r)).trans ((if_neg fun both => above.asymm both.2).trans (one_apply_ne above.ne))
    · rw [later last, one_apply_ne above.ne]
  have ones (r : Fin n) : F r r ≠ 0 := by
    rcases lt_trichotomy r i with first | rfl | last
    · rw [earlier first, triangle_below le_rfl]
      exact (rooted.positive r first).ne'
    · rw [one]
      exact one_ne_zero
    · rw [later last, one_apply_eq]
      exact one_ne_zero
  have unit {j : Fin n} (left : j < i) : D j = 1 := Function.update_of_ne left.ne _ _
  have agree_below (r c : Fin n) (upto : r ≤ i) (below : c ≤ r) : symmetric A r c = (F * diagonal D * Fᵀ) r c := by
    rw [symmetric_below below, mul_transpose_apply D triangular]
    rcases upto.eq_or_lt with rfl | first
    · rcases below.eq_or_lt with rfl | below
      · -- the diagonal itself: the last square is what is left
        have squares : ∑ j with j < c, F c j * D j * F c j = ∑ j with j < c, row j * row j := by
          refine Finset.sum_congr rfl fun j among => ?_
          have left := (Finset.mem_filter.mp among).2
          rw [here left, unit left, mul_one]
        have last : D c = remainder A c row := Function.update_self ..
        rw [sum_upto, squares, one, last, one_mul, mul_one, remainder, add_sub_cancel]
      · rw [← before c below]
        refine Finset.sum_congr rfl fun j among => ?_
        have left := (Finset.mem_filter.mp among).2
        rw [here (left.trans_lt below), unit (left.trans_lt below), mul_one, earlier below, triangle_below left]
    · rw [← rooted.product r c first below]
      refine Finset.sum_congr rfl fun j among => ?_
      have left := (Finset.mem_filter.mp among).2
      rw [earlier first, triangle_below (left.trans below), unit ((left.trans below).trans_lt first), mul_one,
        earlier (below.trans_lt first), triangle_below left]
  have agree (r c : Fin n) (upto : r ≤ i) (left : c ≤ i) : symmetric A r c = (F * diagonal D * Fᵀ) r c := by
    rcases le_total c r with below | above
    · exact agree_below r c upto below
    · -- both sides are symmetric
      have swapped : (F * diagonal D * Fᵀ)ᵀ = F * diagonal D * Fᵀ := by
        rw [transpose_mul, transpose_mul, transpose_transpose, diagonal_transpose, Matrix.mul_assoc]
      rw [symmetric_comm, agree_below c r left above, ← transpose_apply (F * diagonal D * Fᵀ), swapped]
  have positive : 0 < D i := diagonal_pos triangular ones agree posDef
  rwa [show D i = remainder A i row from Function.update_self ..] at positive

/-- When all rows are there, the triangle is the root. -/
theorem Rooted.root (rooted : Rooted A m n) : triangle m * (triangle m)ᵀ = symmetric A := by
  have below (r c : Fin n) (below : c ≤ r) : (triangle m * (triangle m)ᵀ) r c = symmetric A r c := by
    have entry := mul_transpose_apply (F := triangle m) 1 (fun _ _ above => triangle_above above) r c
    rw [show diagonal (1 : Fin n → ℝ) = 1 from diagonal_one, Matrix.mul_one] at entry
    rw [entry, symmetric_below below, ← rooted.product r c r.isLt below]
    refine Finset.sum_congr rfl fun j among => ?_
    have left := (Finset.mem_filter.mp among).2
    rw [triangle_below (left.trans below), triangle_below left, Pi.one_apply, mul_one]
  ext r c
  rcases le_total c r with left | right
  · exact below r c left
  · have swapped : (triangle m * (triangle m)ᵀ)ᵀ = triangle m * (triangle m)ᵀ := by rw [transpose_mul, transpose_transpose]
    rw [symmetric_comm, ← below c r right, ← transpose_apply (triangle m * (triangle m)ᵀ), swapped]

/-- A matrix that has a root is positive definite. -/
theorem Rooted.posDef (rooted : Rooted A m n) : (symmetric A).PosDef := by
  rw [← rooted.root]
  refine posDef_mul_transpose (fun r c above => triangle_above above) fun i => ?_
  rw [triangle_below le_rfl]
  exact (rooted.positive i i.isLt).ne'

end

end Tortuga.TriangularRoots
