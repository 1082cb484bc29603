import Mathlib.Data.Fintype.Fin
import Mathlib.LinearAlgebra.Matrix.Block

/-!
Triangular factors that share the place of one matrix. Elimination of a column leaves the
multipliers below the diagonal; the product of the factors read off the matrix stays the same, up to
the rows that are exchanged. The two triangular systems are solved by loops that assign the unknowns
in turn.
-/
namespace Tortuga.TriangularFactors
open Matrix

/-! ### Loops that assign one place after the other -/

section
variable {ι α : Type} [DecidableEq ι] {g : ι → (ι → α) → α} {before : ι → ι → Prop} {places : List ι} {x : ι → α}

/-- Each place in turn is given a value that is computed from what is there. -/
def assign (g : ι → (ι → α) → α) (places : List ι) (x : ι → α) : ι → α :=
  places.foldl (fun x i => Function.update x i (g i x)) x

theorem assign_snoc (places : List ι) (i : ι) :
    assign g (places ++ [i]) x = Function.update (assign g places x) i (g i (assign g places x)) := by
  rw [assign, List.foldl_append, List.foldl_cons, List.foldl_nil, assign]

theorem assign_other {i : ι} (other : i ∉ places) : assign g places x i = x i := by
  induction places using List.reverseRecOn with
  | nil => rfl
  | append_singleton places j ih =>
    rw [List.mem_append, List.mem_singleton, not_or] at other
    rw [assign_snoc, Function.update_of_ne other.2, ih other.1]

/-- Where a value is computed from the place itself and from places that come before it, the loop ends with values that satisfy
    the equations, the place itself being read as it was. -/
theorem assign_apply (asymmetric : ∀ i j, before i j → ¬ before j i)
    (reads : ∀ i ∈ places, ∀ y z, y i = z i → (∀ j, before j i → y j = z j) → g i y = g i z) (ordered : places.Pairwise before)
    {i : ι} (there : i ∈ places) : assign g places x i = g i (Function.update (assign g places x) i (x i)) := by
  induction places using List.reverseRecOn with
  | nil => contradiction
  | append_singleton places k ih =>
    obtain ⟨ordered, -, last⟩ := List.pairwise_append.mp ordered
    have last (j : ι) (earlier : j ∈ places) : before j k := last j earlier k (List.mem_singleton.mpr rfl)
    have new : k ∉ places := fun earlier => asymmetric k k (last k earlier) (last k earlier)
    rw [assign_snoc]
    rcases List.mem_append.mp there with earlier | now
    · -- A place that was assigned before reads nothing of the last one, which comes after it.
      have different : i ≠ k := fun same => new (same ▸ earlier)
      rw [Function.update_of_ne different, ih (fun i earlier => reads i (List.mem_append_left _ earlier)) ordered earlier]
      refine reads i there _ _ (by rw [Function.update_self, Function.update_self]) fun j first => ?_
      have away : j ≠ i := fun same => asymmetric i i (same ▸ first) (same ▸ first)
      have later : j ≠ k := fun same => asymmetric i k (last i earlier) (same ▸ first)
      rw [Function.update_of_ne away, Function.update_of_ne away, Function.update_of_ne later]
    · obtain rfl := List.mem_singleton.mp now
      rw [Function.update_self, Function.update_idem]
      refine reads i there _ _ ?_ fun j first => ?_
      · rw [Function.update_self, assign_other new]
      · have away : j ≠ i := fun same => asymmetric i i (same ▸ first) (same ▸ first)
        rw [Function.update_of_ne away]

end

section
variable {State : Type} {n : ℕ} {f : State → Fin n → Option State} {holds : ℕ → State → Prop} {s : State}

/-- A loop over all places that may stop: what each step keeps holds at the end, or before the step that stops. -/
theorem foldlM_finRange (step : ∀ (i : Fin n) s s', holds i s → f s i = some s' → holds (i + 1) s') (start : holds 0 s) :
    (∃ s', (List.finRange n).foldlM f s = some s' ∧ holds n s') ∨
      (List.finRange n).foldlM f s = none ∧ ∃ (i : Fin n) (s : State), holds i s ∧ f s i = none := by
  have rest (left k : ℕ) (s : State) (here : k + left = n) (now : holds k s) :
      (∃ s', ((List.finRange n).drop k).foldlM f s = some s' ∧ holds n s') ∨
        ((List.finRange n).drop k).foldlM f s = none ∧ ∃ (i : Fin n) (s : State), holds i s ∧ f s i = none := by
    induction left generalizing k s with
    | zero =>
      obtain rfl : k = n := by omega
      rw [List.drop_of_length_le (by rw [List.length_finRange])]
      exact .inl ⟨s, rfl, now⟩
    | succ left ih =>
      have room : k < n := by omega
      have more : (List.finRange n).drop k = ⟨k, room⟩ :: (List.finRange n).drop (k + 1) := by
        rw [List.drop_eq_getElem_cons (by rwa [List.length_finRange]), List.getElem_finRange]
        rfl
      rw [more, List.foldlM_cons]
      cases next : f s ⟨k, room⟩ with
      | none => exact .inr ⟨rfl, _, s, now, next⟩
      | some s' => exact ih (k + 1) s' (by omega) (step _ s s' now next)
  exact rest n 0 s (Nat.zero_add n) start

end

/-! ### Sums taken off and products taken in turn -/

section
variable {K : Type} [CommRing K] {n : ℕ}

theorem foldl_sub {ι : Type} (f : ι → K) (places : List ι) (a : K) :
    places.foldl (fun sum j => sum - f j) a = a - (places.map f).sum := by
  induction places generalizing a with
  | nil => simp
  | cons j places ih => rw [List.foldl_cons, ih, List.map_cons, List.sum_cons, sub_sub]

theorem foldl_sub_filter (f : Fin n → K) (p : Fin n → Prop) [DecidablePred p] (a : K) :
    ((List.finRange n).filter fun j => p j).foldl (fun sum j => sum - f j) a = a - ∑ j with p j, f j := by
  have distinct : ((List.finRange n).filter fun j => p j).Nodup := (List.nodup_finRange n).filter _
  rw [foldl_sub, ← List.sum_toFinset f distinct, List.toFinset_filter, List.toFinset_finRange]
  simp only [decide_eq_true_eq]

theorem foldl_mul_finRange (f : Fin n → K) (a : K) : (List.finRange n).foldl (fun w i => w * f i) a = a * ∏ i, f i := by
  have all (places : List (Fin n)) (a : K) : places.foldl (fun w i => w * f i) a = a * (places.map f).prod := by
    induction places generalizing a with
    | nil => simp
    | cons i places ih => rw [List.foldl_cons, ih, List.map_cons, List.prod_cons, mul_assoc]
  rw [all, Fin.prod_univ_def]

end

/-! ### The factors in the place of one matrix -/

section
variable {K : Type} {n : ℕ} {k : ℕ} {M : Matrix (Fin n) (Fin n) K}

/-- Ones on the diagonal, and what the first columns hold below it. -/
def lower [Zero K] [One K] (k : ℕ) (M : Matrix (Fin n) (Fin n) K) : Matrix (Fin n) (Fin n) K :=
  of fun r c => if (c : ℕ) < k ∧ c < r then M r c else (1 : Matrix (Fin n) (Fin n) K) r c

/-- What is left without the first columns below the diagonal. -/
def upper [Zero K] (k : ℕ) (M : Matrix (Fin n) (Fin n) K) : Matrix (Fin n) (Fin n) K :=
  of fun r c => if (c : ℕ) < k ∧ c < r then 0 else M r c

theorem lower_first [Zero K] [One K] {r c : Fin n} (first : (c : ℕ) < k) (below : c < r) : lower k M r c = M r c := if_pos ⟨first, below⟩

theorem lower_later [Zero K] [One K] {c : Fin n} (later : k ≤ (c : ℕ)) (r : Fin n) :
    lower k M r c = (1 : Matrix (Fin n) (Fin n) K) r c :=
  if_neg fun both => absurd both.1 (not_lt.mpr later)

theorem lower_above [Zero K] [One K] {r c : Fin n} (above : r ≤ c) : lower k M r c = (1 : Matrix (Fin n) (Fin n) K) r c :=
  if_neg fun both => absurd both.2 (not_lt.mpr above)

theorem upper_first [Zero K] {r c : Fin n} (first : (c : ℕ) < k) (below : c < r) : upper k M r c = 0 := if_pos ⟨first, below⟩

theorem upper_later [Zero K] {c : Fin n} (later : k ≤ (c : ℕ)) (r : Fin n) : upper k M r c = M r c :=
  if_neg fun both => absurd both.1 (not_lt.mpr later)

theorem upper_above [Zero K] {r c : Fin n} (above : r ≤ c) : upper k M r c = M r c :=
  if_neg fun both => absurd both.2 (not_lt.mpr above)

/-- A permutation that keeps the first places keeps the others among themselves. -/
theorem perm_first {σ : Equiv.Perm (Fin n)} (fixed : ∀ j : Fin n, (j : ℕ) < k → σ j = j) (j : Fin n) :
    (σ j : ℕ) < k ↔ (j : ℕ) < k := by
  refine ⟨fun first => ?_, fun first => by rwa [fixed j first]⟩
  rwa [σ.injective (fixed (σ j) first)] at first

/-- Such a permutation moves no row past one of the first columns. -/
theorem perm_below {σ : Equiv.Perm (Fin n)} (fixed : ∀ j : Fin n, (j : ℕ) < k → σ j = j) (r : Fin n) {c : Fin n} (first : (c : ℕ) < k) :
    c < σ r ↔ c < r := by
  by_cases early : (r : ℕ) < k
  · rw [fixed r early]
  · have late := mt (perm_first fixed r).mp early
    rw [Fin.lt_def, Fin.lt_def]
    omega

theorem lower_perm [Zero K] [One K] {σ : Equiv.Perm (Fin n)} (fixed : ∀ j : Fin n, (j : ℕ) < k → σ j = j) :
    lower k (M.submatrix σ id) = (lower k M).submatrix σ σ := by
  ext r c
  rw [submatrix_apply]
  have ones : (1 : Matrix (Fin n) (Fin n) K) (σ r) (σ c) = (1 : Matrix (Fin n) (Fin n) K) r c := by
    rw [one_apply, one_apply]
    exact if_congr σ.injective.eq_iff rfl rfl
  by_cases first : (c : ℕ) < k
  · have same := perm_below fixed r first
    by_cases below : c < r
    · rw [lower_first first below, fixed c first, lower_first first (same.mpr below), submatrix_apply, id_eq]
    · have above : σ r ≤ σ c := by
        rw [fixed c first]
        exact not_lt.mp (mt same.mp below)
      rw [lower_above (not_lt.mp below), lower_above above, ones]
  · rw [lower_later (not_lt.mp first), lower_later (not_lt.mp (mt (perm_first fixed c).mp first)), ones]

theorem upper_perm [Zero K] {σ : Equiv.Perm (Fin n)} (fixed : ∀ j : Fin n, (j : ℕ) < k → σ j = j) :
    upper k (M.submatrix σ id) = (upper k M).submatrix σ id := by
  ext r c
  rw [submatrix_apply, id_eq]
  by_cases first : (c : ℕ) < k
  · have same := perm_below fixed r first
    by_cases below : c < r
    · rw [upper_first first below, upper_first first (same.mpr below)]
    · rw [upper_above (not_lt.mp below), upper_above (not_lt.mp (mt same.mp below)), submatrix_apply, id_eq]
  · rw [upper_later (not_lt.mp first), upper_later (not_lt.mp first), submatrix_apply, id_eq]

end

section
variable {K : Type} [CommRing K] {n k : ℕ} {M : Matrix (Fin n) (Fin n) K}

/-- Before any column is eliminated the second factor is the whole matrix. -/
theorem factors_zero (M : Matrix (Fin n) (Fin n) K) : lower 0 M * upper 0 M = M := by
  have one : lower 0 M = 1 := by
    ext r c
    exact lower_later (Nat.zero_le _) r
  have all : upper 0 M = M := by
    ext r c
    exact upper_later (Nat.zero_le _) r
  rw [one, all, Matrix.one_mul]

/-- The product of the factors takes part in an exchange of rows that are not yet used. -/
theorem factors_perm {σ : Equiv.Perm (Fin n)} (fixed : ∀ j : Fin n, (j : ℕ) < k → σ j = j) :
    lower k (M.submatrix σ id) * upper k (M.submatrix σ id) = (lower k M * upper k M).submatrix σ id := by
  rw [lower_perm fixed, upper_perm fixed, submatrix_mul_equiv]

theorem det_lower : (lower k M).det = 1 := by
  have triangular : (lower k M).IsLowerTriangular := by
    intro r c above
    have up : r < c := above
    rw [lower_above up.le, one_apply_ne up.ne]
  rw [det_of_isLowerTriangular _ triangular]
  refine Finset.prod_eq_one fun i _ => ?_
  rw [lower_above le_rfl, one_apply_eq]

theorem det_upper : (upper n M).det = ∏ i, M i i := by
  have triangular : (upper n M).IsUpperTriangular := by
    intro r c below
    exact upper_first c.isLt below
  rw [det_of_isUpperTriangular triangular]
  exact Finset.prod_congr rfl fun i _ => upper_above le_rfl

/-- When a column is zero in all rows that are left, the second factor is singular: these rows have one column too few. -/
theorem det_upper_eq_zero {i : Fin n} (none : ∀ r, i ≤ r → M r i = 0) : (upper i M).det = 0 := by
  have square : (toSquareBlockProp (upper i M) fun r => ¬ r < i).det = 0 := by
    refine det_eq_zero_of_column_eq_zero ⟨i, lt_irrefl i⟩ fun r => ?_
    change upper i M r i = 0
    rw [upper_later le_rfl, none r (not_lt.mp r.2)]
  rw [twoBlockTriangular_det _ (fun r => r < i), square, mul_zero]
  intro r late c early
  exact upper_first early (early.trans_le (not_lt.mp late))

end

section
variable {K : Type} [Field K] {n : ℕ} {M : Matrix (Fin n) (Fin n) K}

/-- The column below a pivot is divided by it, and that multiple of the row of the pivot is taken off the rest of each row below. -/
def eliminate (i : Fin n) (M : Matrix (Fin n) (Fin n) K) : Matrix (Fin n) (Fin n) K :=
  of fun r c => if i < r then if c = i then M r i / M i i else if i < c then M r c - M r i / M i i * M i c else M r c else M r c

theorem eliminate_above {i r : Fin n} (above : r ≤ i) (c : Fin n) : eliminate i M r c = M r c := if_neg (not_lt.mpr above)

theorem eliminate_pivot {i r : Fin n} (below : i < r) : eliminate i M r i = M r i / M i i := by
  rw [eliminate, of_apply, if_pos below, if_pos rfl]

theorem eliminate_right {i r c : Fin n} (below : i < r) (right : i < c) :
    eliminate i M r c = M r c - M r i / M i i * M i c := by
  rw [eliminate, of_apply, if_pos below, if_neg right.ne', if_pos right]

theorem eliminate_left {i c : Fin n} (left : c < i) (r : Fin n) : eliminate i M r c = M r c := by
  by_cases below : i < r
  · rw [eliminate, of_apply, if_pos below, if_neg left.ne, if_neg left.asymm]
  · exact if_neg below

/-- The multipliers of a column, in its place. -/
def multipliers (i : Fin n) (M : Matrix (Fin n) (Fin n) K) : Matrix (Fin n) (Fin n) K :=
  of fun r c => if i < r ∧ c = i then M r i / M i i else 0

theorem multipliers_pivot {i r : Fin n} (below : i < r) : multipliers i M r i = M r i / M i i := if_pos ⟨below, rfl⟩

theorem multipliers_above {i r : Fin n} (above : r ≤ i) (c : Fin n) : multipliers i M r c = 0 :=
  if_neg fun both => absurd both.1 (not_lt.mpr above)

theorem multipliers_other {i c : Fin n} (other : c ≠ i) (r : Fin n) : multipliers i M r c = 0 := if_neg fun both => other both.2

theorem multipliers_mul (i : Fin n) (U : Matrix (Fin n) (Fin n) K) (r c : Fin n) :
    (multipliers i M * U) r c = multipliers i M r i * U i c := by
  rw [mul_apply, Finset.sum_eq_single i]
  · intro j _ other
    rw [multipliers_other other, zero_mul]
  · exact fun absent => absurd (Finset.mem_univ i) absent

theorem lower_eliminate (i : Fin n) : lower (i + 1) (eliminate i M) = lower i M + multipliers i M := by
  ext r c
  rw [Matrix.add_apply]
  rcases lt_trichotomy c i with left | rfl | right
  · rw [multipliers_other left.ne, add_zero]
    by_cases below : c < r
    · rw [lower_first (Nat.lt_succ_of_lt left) below, lower_first left below, eliminate_left left]
    · rw [lower_above (not_lt.mp below), lower_above (not_lt.mp below)]
  · rw [lower_later (le_refl (c : ℕ))]
    by_cases below : c < r
    · rw [lower_first (Nat.lt_succ_self _) below, eliminate_pivot below, multipliers_pivot below, one_apply_ne below.ne', zero_add]
    · rw [lower_above (not_lt.mp below), multipliers_above (not_lt.mp below), add_zero]
  · rw [lower_later (Nat.succ_le_of_lt right), lower_later (le_of_lt right : (i : ℕ) ≤ c), multipliers_other right.ne', add_zero]

theorem upper_eliminate {i : Fin n} (pivot : M i i ≠ 0) :
    upper (i + 1) (eliminate i M) = upper i M - multipliers i M * upper i M := by
  ext r c
  rw [Matrix.sub_apply, multipliers_mul]
  rcases lt_trichotomy c i with left | rfl | right
  · rw [upper_first left left, mul_zero, sub_zero]
    by_cases below : c < r
    · rw [upper_first (Nat.lt_succ_of_lt left) below, upper_first left below]
    · rw [upper_above (not_lt.mp below), upper_above (not_lt.mp below), eliminate_left left]
  · rw [upper_later (le_refl (c : ℕ)), upper_later (le_refl (c : ℕ))]
    by_cases below : c < r
    · rw [upper_first (Nat.lt_succ_self _) below, multipliers_pivot below, div_mul_cancel₀ _ pivot, sub_self]
    · rw [upper_above (not_lt.mp below), multipliers_above (not_lt.mp below), zero_mul, sub_zero, eliminate_above (not_lt.mp below)]
  · rw [upper_later (Nat.succ_le_of_lt right), upper_later (le_of_lt right : (i : ℕ) ≤ c), upper_later (le_of_lt right : (i : ℕ) ≤ c)]
    by_cases below : i < r
    · rw [eliminate_right below right, multipliers_pivot below]
    · rw [eliminate_above (not_lt.mp below), multipliers_above (not_lt.mp below), zero_mul, sub_zero]

/-- The columns from the pivot on of the first factor are those of the identity, so that it keeps the multipliers. -/
theorem lower_mul_multipliers (i : Fin n) : lower i M * multipliers i M = multipliers i M := by
  ext r c
  rw [mul_apply, Finset.sum_eq_single r]
  · rw [lower_above le_rfl, one_apply_eq, one_mul]
  · intro j _ other
    by_cases below : i < j
    · rw [lower_later (le_of_lt below : (i : ℕ) ≤ j), one_apply_ne other.symm, zero_mul]
    · rw [multipliers_above (not_lt.mp below), mul_zero]
  · exact fun absent => absurd (Finset.mem_univ r) absent

theorem multipliers_sq (i : Fin n) : multipliers i M * multipliers i M = 0 := by
  ext r c
  rw [multipliers_mul, multipliers_above le_rfl, mul_zero, Matrix.zero_apply]

/-- Elimination keeps the product of the factors. -/
theorem factors_eliminate {i : Fin n} (pivot : M i i ≠ 0) :
    lower (i + 1) (eliminate i M) * upper (i + 1) (eliminate i M) = lower i M * upper i M := by
  -- What the multipliers add to the first factor is what they take off the second.
  rw [lower_eliminate, upper_eliminate pivot, Matrix.add_mul, Matrix.mul_sub, Matrix.mul_sub, ← Matrix.mul_assoc, ← Matrix.mul_assoc,
    lower_mul_multipliers, multipliers_sq, Matrix.zero_mul, sub_zero, sub_add_cancel]

/-! ### The triangular systems -/

/-- Unknowns that are each found from those before it solve the first system. -/
theorem lower_solved {y b : Fin n → K} (each : ∀ r, y r = b r - ∑ c with c < r, M r c * y c) : (lower n M).mulVec y = b := by
  funext r
  have entry (c : Fin n) : lower n M r c * y c = (if c < r then M r c * y c else 0) + if c = r then y c else 0 := by
    rcases lt_trichotomy c r with before | rfl | after
    · rw [lower_first c.isLt before, if_pos before, if_neg before.ne, add_zero]
    · rw [lower_above le_rfl, one_apply_eq, if_neg (lt_irrefl _), if_pos rfl, one_mul, zero_add]
    · rw [lower_above after.le, one_apply_ne after.ne, if_neg after.asymm, if_neg after.ne', zero_mul, add_zero]
  rw [mulVec, dotProduct, Finset.sum_congr rfl fun c _ => entry c, Finset.sum_add_distrib, ← Finset.sum_filter,
    Finset.sum_ite_eq' Finset.univ r, if_pos (Finset.mem_univ r), each r]
  ring

/-- Unknowns that are each found from those after it solve the second system. -/
theorem upper_solved {x y : Fin n → K} (pivots : ∀ r, M r r ≠ 0) (each : ∀ r, x r = (y r - ∑ c with r < c, M r c * x c) / M r r) :
    (upper n M).mulVec x = y := by
  funext r
  have entry (c : Fin n) : upper n M r c * x c = (if r < c then M r c * x c else 0) + if c = r then M c c * x c else 0 := by
    rcases lt_trichotomy c r with before | rfl | after
    · rw [upper_first c.isLt before, if_neg before.asymm, if_neg before.ne, zero_mul, add_zero]
    · rw [upper_above le_rfl, if_neg (lt_irrefl _), if_pos rfl, zero_add]
    · rw [upper_above after.le, if_pos after, if_neg after.ne', add_zero]
  have row := each r
  rw [eq_div_iff (pivots r)] at row
  rw [mulVec, dotProduct, Finset.sum_congr rfl fun c _ => entry c, Finset.sum_add_distrib, ← Finset.sum_filter,
    Finset.sum_ite_eq' Finset.univ r, if_pos (Finset.mem_univ r), mul_comm (M r r), row]
  ring

/-- The unknowns are found one after the other, from the right side and from those before. -/
def forward (M : Matrix (Fin n) (Fin n) K) (b x : Fin n → K) : Fin n → K :=
  assign (fun i x => b i - ∑ c with c < i, M i c * x c) (List.finRange n) x

/-- The unknowns are found from the last one on, each from those after, in the place of the right side. -/
def backward (M : Matrix (Fin n) (Fin n) K) (x : Fin n → K) : Fin n → K :=
  assign (fun i x => (x i - ∑ c with i < c, M i c * x c) / M i i) (List.finRange n).reverse x

/-- What was in the place of the unknowns does not matter. -/
theorem lower_forward (M : Matrix (Fin n) (Fin n) K) (b x : Fin n → K) : (lower n M).mulVec (forward M b x) = b := by
  refine lower_solved fun r => ?_
  have later (i : Fin n) (y z : Fin n → K) (first : ∀ j, j < i → y j = z j) :
      ∑ c with c < i, M i c * y c = ∑ c with c < i, M i c * z c :=
    Finset.sum_congr rfl fun c early => by rw [first c (Finset.mem_filter.mp early).2]
  rw [forward, assign_apply (fun _ _ => lt_asymm) (fun i _ y z _ first => congrArg (b i - ·) (later i y z first))
    (List.pairwise_lt_finRange n) (List.mem_finRange r)]
  exact congrArg (b r - ·) (later r _ _ fun c early => Function.update_of_ne early.ne _ _)

theorem upper_backward (pivots : ∀ r, M r r ≠ 0) (y : Fin n → K) : (upper n M).mulVec (backward M y) = y := by
  refine upper_solved pivots fun r => ?_
  have earlier (i : Fin n) (y z : Fin n → K) (last : ∀ j, i < j → y j = z j) :
      ∑ c with i < c, M i c * y c = ∑ c with i < c, M i c * z c :=
    Finset.sum_congr rfl fun c late => by rw [last c (Finset.mem_filter.mp late).2]
  rw [backward, assign_apply (fun _ _ => lt_asymm) (fun i _ y z here last => by rw [here, earlier i y z last])
    (List.pairwise_reverse.mpr (List.pairwise_lt_finRange n)) (List.mem_reverse.mpr (List.mem_finRange r)), Function.update_self]
  rw [earlier r _ _ fun c late => Function.update_of_ne late.ne' _ _]

/-- A matrix of which the factors are those of its rows in another order has the solution of the two systems. -/
theorem solved_of_factors {A : Matrix (Fin n) (Fin n) K} {σ : Equiv.Perm (Fin n)} {x y b : Fin n → K}
    (factors : lower n M * upper n M = A.submatrix σ id) (first : (lower n M).mulVec y = b ∘ σ) (second : (upper n M).mulVec x = y) :
    A.mulVec x = b := by
  have rows : (A.submatrix σ id).mulVec x = b ∘ σ := by rw [← factors, ← mulVec_mulVec, second, first]
  funext r
  have row := congrFun rows (σ.symm r)
  rw [Function.comp_apply, Equiv.apply_symm_apply] at row
  rw [← row, mulVec, mulVec, dotProduct, dotProduct]
  simp only [submatrix_apply, Equiv.apply_symm_apply, id_eq]

end

end Tortuga.TriangularFactors
