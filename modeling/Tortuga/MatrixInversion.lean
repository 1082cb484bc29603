import Mathlib.LinearAlgebra.Matrix.NonsingularInverse
import Tortuga.RunningMaxima
import Tortuga.SavitzkyGolay
import Tortuga.ThrusterAllocation
import Tortuga.TriangularFactors

/-!
`MatrixN`: the factorization into triangular factors, the solution of a system from the factors, and the inverse. The numbers
are taken as exact, so that `fabsf` is the absolute value.
-/
namespace Tortuga.MatrixInversion
open Matrix
open Tortuga.RunningMaxima
open Tortuga.TriangularFactors

section
variable {K : Type} [Field K] [LinearOrder K] {rows cols n : ℕ}

/-- The places from the start to one, and those after it, in order. -/
def before (i : Fin n) : List (Fin n) := (List.finRange n).filter (· < i)
def after (i : Fin n) : List (Fin n) := (List.finRange n).filter (i < ·)

/-! ### The factors -/

/-- The matrix that becomes the factors, the order of its rows if pivoting is used, and the sign of the order. -/
structure Factors (K : Type) (n : ℕ) where
  entries : Matrix (Fin n) (Fin n) K
  index : Option (Equiv.Perm (Fin n))
  w : K

def Factors.start (pivoting : Bool) (m : Matrix (Fin n) (Fin n) K) : Factors K n :=
  { entries := m, index := if pivoting then some 1 else none, w := 1 }

/-- `s` and `newi`: with pivoting, the largest absolute value in the column from the diagonal on and the first row that has it. -/
def Factors.pivot (f : Factors K n) (i : Fin n) : K × Fin n :=
  if f.index.isSome then (after i).foldl (exceed fun j => |f.entries j i|) (|f.entries i i|, i) else (|f.entries i i|, i)

def Factors.exchange (f : Factors K n) (i newi : Fin n) : Factors K n :=
  if newi ≠ i then
    { entries := f.entries.submatrix (Equiv.swap i newi) id
      index := f.index.map (· * Equiv.swap i newi)
      w := -f.w }
  else f

/-- The column below the pivot is divided by it. -/
def scale (i : Fin n) (m : Matrix (Fin n) (Fin n) K) : Matrix (Fin n) (Fin n) K :=
  let d := 1 / m i i
  of (assign (fun j rows => Function.update (rows j) i (rows j i * d)) (after i) fun j => m j)

/-- A multiple of the row of the pivot is taken off each row below. -/
def subtract (i : Fin n) (m : Matrix (Fin n) (Fin n) K) : Matrix (Fin n) (Fin n) K :=
  of (assign (fun j rows => let d := rows j i; assign (fun k row => row k - d * rows i k) (after i) (rows j)) (after i) fun j => m j)

def Factors.next (f : Factors K n) (i : Fin n) : Option (Factors K n) :=
  let (s, newi) := f.pivot i
  if s = 0 then none
  else
    let f := f.exchange i newi
    let m := scale i f.entries
    some { f with entries := if (i : ℕ) < n - 1 then subtract i m else m }

/-- The matrix is square wherever this is called, so that `min` is the number of its rows. -/
def factorLU (pivoting : Bool) (m : Matrix (Fin n) (Fin n) K) : Option (Factors K n) :=
  (List.finRange n).foldlM Factors.next (.start pivoting m)

/-- What is left at `det`. -/
def Factors.det (f : Factors K n) : K := (List.finRange n).foldl (fun w i => w * f.entries i i) f.w

/-! ### Solutions and the inverse -/

/-- Where the right side is found for a row. -/
def place (index : Option (Equiv.Perm (Fin n))) (i : Fin n) : Fin n :=
  match index with
  | some index => index i
  | none => i

def solveLU (m : Matrix (Fin n) (Fin n) K) (index : Option (Equiv.Perm (Fin n))) (x b : Fin n → K) : Fin n → K :=
  let x := assign (fun i x => (before i).foldl (fun sum j => sum - m i j * x j) (b (place index i))) (List.finRange n) x
  assign (fun i x => (after i).foldl (fun sum j => sum - m i j * x j) (x i) / m i i) (List.finRange n).reverse x

/-- The matrix and the two arrays during the loop over the columns. -/
structure Columns (K : Type) (rows cols : ℕ) where
  inverse : Matrix (Fin rows) (Fin cols) K
  x : Fin rows → K
  b : Fin rows → K

def Columns.next (tmp : Factors K rows) (square : rows = cols) (s : Columns K rows cols) (i : Fin rows) : Columns K rows cols :=
  let b := Function.update s.b i 1
  let x := solveLU tmp.entries tmp.index s.x b
  { inverse := s.inverse.updateCol (Fin.cast square i) x, x := x, b := Function.update b i 0 }

/-- The array `x` holds what was in memory at the start. -/
def invert (memory : Fin rows → K) (m : Matrix (Fin rows) (Fin cols) K) : Bool × Matrix (Fin rows) (Fin cols) K :=
  if square : rows = cols then
    match factorLU true (m.submatrix id (Fin.cast square)) with
    | none => (false, m)
    | some tmp => (true, ((List.finRange rows).foldl (Columns.next tmp square) { inverse := m, x := memory, b := 0 }).inverse)
  else (false, m)

/-- `inverse`, on a copy. -/
def inverse (memory : Fin rows → K) (m : Matrix (Fin rows) (Fin cols) K) : Matrix (Fin rows) (Fin cols) K := (invert memory m).2

end

/-! ### What one column does -/

section
variable {K : Type} [Field K] {n : ℕ} {i : Fin n} {m : Matrix (Fin n) (Fin n) K}

@[simp] theorem mem_after {j : Fin n} : j ∈ after i ↔ i < j := by simp [after]

theorem after_pairwise (i : Fin n) : (after i).Pairwise (· < ·) := (List.pairwise_lt_finRange n).filter _

theorem scale_apply (r c : Fin n) : scale i m r c = if i < r ∧ c = i then m r i / m i i else m r c := by
  rw [scale, of_apply]
  by_cases below : i < r
  · rw [assign_apply (fun _ _ => lt_asymm) (fun j _ y z here _ => by rw [here]) (after_pairwise i) (mem_after.mpr below),
      Function.update_self, Function.update_apply, mul_one_div]
    exact if_congr (and_iff_right below).symm rfl rfl
  · rw [assign_other (mt mem_after.mp below), if_neg (below ·.1)]

/-- The inner loop takes a multiple of another row off the end of a row. -/
theorem row_apply (row other : Fin n → K) (d : K) (c : Fin n) :
    assign (fun k row => row k - d * other k) (after i) row c = if i < c then row c - d * other c else row c := by
  by_cases right : i < c
  · rw [assign_apply (fun _ _ => lt_asymm) (fun j _ y z here _ => by rw [here]) (after_pairwise i) (mem_after.mpr right),
      Function.update_self, if_pos right]
  · rw [assign_other (mt mem_after.mp right), if_neg right]

theorem subtract_apply (r c : Fin n) : subtract i m r c = if i < r ∧ i < c then m r c - m r i * m i c else m r c := by
  rw [subtract, of_apply]
  by_cases below : i < r
  · -- the row of the pivot is not among those that change
    have kept := assign_other (g := fun j rows => assign (fun k row => row k - rows j i * rows i k) (after i) (rows j))
      (x := fun j => m j) (mt mem_after.mp (lt_irrefl i))
    rw [assign_apply (fun _ _ => lt_asymm) (fun j later y z here first => ?_) (after_pairwise i) (mem_after.mpr below)]
    · simp only [Function.update_self, Function.update_of_ne below.ne, row_apply]
      rw [kept]
      exact if_congr (and_iff_right below).symm rfl rfl
    · simp only [here, first i (mem_after.mp later)]
  · rw [assign_other (mt mem_after.mp below), if_neg (below ·.1)]

/-- Both loops of a column are the elimination. -/
theorem eliminated : (if (i : ℕ) < n - 1 then subtract i (scale i m) else scale i m) = eliminate i m := by
  have scaled : scale i m i = m i := by
    funext c
    rw [scale_apply, if_neg (fun below => absurd below.1 (lt_irrefl i))]
  split_ifs with more
  · ext r c
    rw [subtract_apply, scaled, scale_apply, scale_apply]
    by_cases below : i < r
    · rcases lt_trichotomy c i with left | rfl | right
      · rw [if_neg (fun both => left.asymm both.2), if_neg (fun both => left.ne both.2), eliminate_left left]
      · rw [if_neg (fun both => lt_irrefl c both.2), if_pos ⟨below, rfl⟩, eliminate_pivot below]
      · rw [if_pos ⟨below, right⟩, if_neg (fun both => right.ne' both.2), if_pos ⟨below, rfl⟩, eliminate_right below right]
    · rw [if_neg (below ·.1), if_neg (below ·.1), eliminate_above (not_lt.mp below)]
  · ext r c
    have last : r ≤ i := by
      rw [Fin.le_def]
      omega
    rw [eliminate_above last, scale_apply, if_neg (fun below => absurd below.1 (not_lt.mpr last))]

end

section
variable {K : Type} [Field K] [LinearOrder K] {n : ℕ} {i : Fin n} {m : Matrix (Fin n) (Fin n) K} {f : Factors K n}

theorem pivot_spec (f : Factors K n) (i : Fin n) : |f.entries (f.pivot i).2 i| = (f.pivot i).1 ∧ i ≤ (f.pivot i).2 := by
  rw [Factors.pivot]
  split_ifs with pivoting
  · rcases foldl_exceed (fun j => |f.entries j i|) (after i) (|f.entries i i|, i) with ⟨same, -⟩ | ⟨j, same, -, first⟩
    · rw [same]
      exact ⟨rfl, le_rfl⟩
    · rw [same]
      exact ⟨rfl, (mem_after.mp first.mem).le⟩
  · exact ⟨rfl, le_rfl⟩

theorem pivot_greatest (pivoting : f.index.isSome) {j : Fin n} (below : i ≤ j) : |f.entries j i| ≤ (f.pivot i).1 := by
  rw [Factors.pivot, if_pos pivoting]
  rcases foldl_exceed (fun j => |f.entries j i|) (after i) (|f.entries i i|, i) with ⟨same, least⟩ | ⟨k, same, above, first⟩
  · rw [same]
    rcases below.eq_or_lt with rfl | below
    · exact le_rfl
    · exact least j (mem_after.mpr below)
  · rw [same]
    rcases below.eq_or_lt with rfl | below
    · exact above.le
    · exact first.greatest j (mem_after.mpr below)

theorem pivot_diagonal (plain : f.index = none) : (f.pivot i).2 = i := by
  rw [Factors.pivot, plain, Option.isSome_none, if_neg Bool.false_ne_true]

end

/-! ### The factors after some columns -/

/-- The order of the rows, which is the first one without pivoting. -/
def Factors.order {K : Type} {n : ℕ} (f : Factors K n) : Equiv.Perm (Fin n) := f.index.getD 1

theorem place_index {K : Type} {n : ℕ} (f : Factors K n) (i : Fin n) : place f.index i = f.order i := by
  rw [Factors.order]
  cases f.index <;> rfl

section
variable {K : Type} [Field K] {n : ℕ} {i : Fin n} {pivoting : Bool} {A : Matrix (Fin n) (Fin n) K} {f : Factors K n}

/-- After `k` columns the factors are those of the rows in their order, no pivot is zero, and the sign is that of the order. -/
structure Factored (pivoting : Bool) (A : Matrix (Fin n) (Fin n) K) (k : ℕ) (f : Factors K n) : Prop where
  pivoting : f.index.isSome = pivoting
  product : lower k f.entries * upper k f.entries = A.submatrix f.order id
  pivots : ∀ i : Fin n, (i : ℕ) < k → f.entries i i ≠ 0
  sign : f.w = ((Equiv.Perm.sign f.order : ℤ) : K)

theorem factored_start (pivoting : Bool) (A : Matrix (Fin n) (Fin n) K) : Factored pivoting A 0 (.start pivoting A) := by
  have order : (Factors.start pivoting A).order = 1 := by cases pivoting <;> rfl
  refine ⟨by cases pivoting <;> rfl, ?_, fun i first => absurd first (Nat.not_lt_zero _), ?_⟩
  · rw [order, factors_zero]
    rfl
  · rw [order, Equiv.Perm.sign_one, Units.val_one, Int.cast_one]
    rfl

/-- Rows that are left are exchanged, and only with pivoting. -/
theorem Factored.exchange (done : Factored pivoting A i f) {newi : Fin n} (left : i ≤ newi) (plain : f.index = none → newi = i) :
    Factored pivoting A i (f.exchange i newi) ∧ (f.exchange i newi).entries i i = f.entries newi i := by
  rw [Factors.exchange]
  split_ifs with different
  · have fixed (j : Fin n) (first : (j : ℕ) < i) : Equiv.swap i newi j = j := by
      have before : j < i := first
      exact Equiv.swap_apply_of_ne_of_ne before.ne (before.trans_le left).ne
    obtain ⟨index, there⟩ : ∃ index, f.index = some index := Option.ne_none_iff_exists'.mp (mt plain different)
    have order : f.order = index := by rw [Factors.order, there, Option.getD_some]
    refine ⟨⟨?_, ?_, fun j first => ?_, ?_⟩, ?_⟩
    · rw [← done.pivoting, Option.isSome_map]
    · change lower i (f.entries.submatrix (Equiv.swap i newi) id) * upper i (f.entries.submatrix (Equiv.swap i newi) id) = _
      rw [factors_perm fixed, done.product, submatrix_submatrix, order, Factors.order, there]
      rfl
    · change f.entries (Equiv.swap i newi j) j ≠ 0
      rw [fixed j first]
      exact done.pivots j first
    · rw [Factors.order, there, done.sign, order, Option.map_some, Option.getD_some, Equiv.Perm.sign_mul,
        Equiv.Perm.sign_swap (Ne.symm different)]
      simp
    · change f.entries (Equiv.swap i newi i) i = _
      rw [Equiv.swap_apply_left]
  · exact ⟨done, by rw [not_not.mp different]⟩

end

section
variable {K : Type} [Field K] [LinearOrder K] [IsStrictOrderedRing K] {n : ℕ} {i : Fin n} {pivoting : Bool} {A : Matrix (Fin n) (Fin n) K} {f : Factors K n}

/-- A column keeps the factors right; it stops only where the largest value is zero. -/
theorem Factored.next (done : Factored pivoting A i f) :
    (f.next i = none ∧ (f.pivot i).1 = 0) ∨ ∃ f', f.next i = some f' ∧ Factored pivoting A (i + 1) f' := by
  obtain ⟨value, left⟩ := pivot_spec f i
  obtain ⟨exchanged, pivot⟩ := done.exchange left pivot_diagonal
  rw [Factors.next]
  by_cases zero : (f.pivot i).1 = 0
  · exact .inl ⟨if_pos zero, zero⟩
  · refine .inr ⟨_, if_neg zero, ?_⟩
    have nonzero : (f.exchange i (f.pivot i).2).entries i i ≠ 0 := by
      rw [pivot]
      intro none
      exact zero (by rw [← value, none, abs_zero])
    simp only [eliminated]
    refine ⟨exchanged.pivoting, ?_, fun j first => ?_, exchanged.sign⟩
    · exact (factors_eliminate nonzero).trans exchanged.product
    · change eliminate i (f.exchange i (f.pivot i).2).entries j j ≠ 0
      have above : j ≤ i := Nat.lt_succ_iff.mp first
      rw [eliminate_above above]
      rcases above.eq_or_lt with rfl | before
      · exact nonzero
      · exact exchanged.pivots j before

/-- The factorization ends with the factors of the matrix, or stops at a column where the largest value is zero. -/
theorem factorLU_cases (pivoting : Bool) (A : Matrix (Fin n) (Fin n) K) :
    (∃ f, factorLU pivoting A = some f ∧ Factored pivoting A n f) ∨
      factorLU pivoting A = none ∧ ∃ (i : Fin n) (f : Factors K n), Factored pivoting A i f ∧ (f.pivot i).1 = 0 := by
  have step (i : Fin n) (f f' : Factors K n) (done : Factored pivoting A i f) (next : f.next i = some f') :
      Factored pivoting A (i + 1) f' := by
    rcases done.next with ⟨none, -⟩ | ⟨g, same, more⟩
    · rw [next] at none
      contradiction
    · rw [next] at same
      exact Option.some_inj.mp same ▸ more
  rcases foldlM_finRange step (factored_start pivoting A) with ended | ⟨none, i, f, done, stops⟩
  · exact .inl ended
  · refine .inr ⟨none, i, f, done, ?_⟩
    rcases done.next with ⟨-, zero⟩ | ⟨g, same, -⟩
    · exact zero
    · rw [stops] at same
      contradiction

end

section
variable {K : Type} [Field K] {n : ℕ} {i : Fin n} {k : ℕ} {pivoting : Bool} {A : Matrix (Fin n) (Fin n) K} {f : Factors K n}

theorem Factored.det_upper (done : Factored pivoting A k f) :
    (upper k f.entries).det = ((Equiv.Perm.sign f.order : ℤ) : K) * A.det := by
  rw [← det_permute, ← done.product, det_mul, det_lower, one_mul]

/-- What is left at `det` is the determinant. -/
theorem Factored.det_eq (done : Factored pivoting A n f) : f.det = A.det := by
  have square : ((Equiv.Perm.sign f.order : ℤ) : K) * ((Equiv.Perm.sign f.order : ℤ) : K) = 1 := by
    rw [← Int.cast_mul, Int.units_coe_mul_self, Int.cast_one]
  rw [Factors.det, foldl_mul_finRange fun i => f.entries i i, ← TriangularFactors.det_upper, done.det_upper, done.sign, ← mul_assoc,
    square, one_mul]

/-- Where a column is zero in the rows that are left, the matrix is singular. -/
theorem Factored.singular (done : Factored pivoting A i f) (none : ∀ r, i ≤ r → f.entries r i = 0) : A.det = 0 := by
  have zero := done.det_upper
  rw [det_upper_eq_zero none] at zero
  refine (mul_eq_zero.mp zero.symm).resolve_left ?_
  exact ((Equiv.Perm.sign f.order).isUnit.map (Int.castRingHom K)).ne_zero

/-! ### The solutions -/

/-- The loops are those of the two triangular systems. -/
theorem solveLU_eq (f : Factors K n) (x b : Fin n → K) :
    solveLU f.entries f.index x b = backward f.entries (forward f.entries (b ∘ f.order) x) := by
  have less (i : Fin n) (g : Fin n → K) (a : K) : (before i).foldl (fun sum j => sum - g j) a = a - ∑ j with j < i, g j :=
    foldl_sub_filter g (· < i) a
  have more (i : Fin n) (g : Fin n → K) (a : K) : (after i).foldl (fun sum j => sum - g j) a = a - ∑ j with i < j, g j :=
    foldl_sub_filter g (i < ·) a
  simp only [solveLU, backward, forward, less, more, place_index, Function.comp_apply]

/-- What was in the array before does not matter. -/
theorem Factored.solves (done : Factored pivoting A n f) (x b : Fin n → K) : A.mulVec (solveLU f.entries f.index x b) = b := by
  rw [solveLU_eq]
  exact solved_of_factors done.product (lower_forward _ _ _) (upper_backward (fun i => done.pivots i i.isLt) _)

/-- Each column is the solution for a column of the identity. -/
theorem Factored.columns (done : Factored pivoting A n f) {start : Columns K n n} (clear : start.b = 0) (is : List (Fin n)) :
    (is.foldl (Columns.next f rfl) start).b = 0 ∧
      ∀ i ∈ is, A.mulVec (fun j => (is.foldl (Columns.next f rfl) start).inverse j i) = Pi.single i 1 := by
  induction is using List.reverseRecOn with
  | nil => exact ⟨clear, fun i none => absurd none List.not_mem_nil⟩
  | append_singleton is k ih =>
    rw [List.foldl_append, List.foldl_cons, List.foldl_nil]
    generalize is.foldl (Columns.next f rfl) start = s at ih
    obtain ⟨clear, each⟩ := ih
    refine ⟨?_, fun i there => ?_⟩
    · rw [Columns.next, clear, Function.update_idem]
      exact Function.update_eq_self k (0 : Fin n → K)
    · have column : (fun j => (s.next f rfl k).inverse j i) =
          if i = k then solveLU f.entries f.index s.x (Function.update s.b k 1) else fun j => s.inverse j i := by
        funext j
        refine updateCol_apply.trans ?_
        rw [Fin.cast_eq_self]
        split_ifs <;> rfl
      rw [column]
      split_ifs with same
      · rw [done.solves, clear, same]
        rfl
      · refine each i ((List.mem_append.mp there).resolve_right fun last => same (List.mem_singleton.mp last))

theorem Factored.inverse (done : Factored pivoting A n f) {start : Columns K n n} (clear : start.b = 0) :
    A * ((List.finRange n).foldl (Columns.next f rfl) start).inverse = 1 := by
  ext r c
  have column := congrFun ((done.columns clear (List.finRange n)).2 c (List.mem_finRange c)) r
  rw [one_apply, ← Pi.single_apply, ← column]
  rfl

end

section
variable {K : Type} [Field K] [LinearOrder K] {rows cols n : ℕ}

/-- Where the inversion fails it leaves the matrix as it is. -/
theorem invert_unchanged {memory : Fin rows → K} {m : Matrix (Fin rows) (Fin cols) K} (failed : (invert memory m).1 = false) :
    (invert memory m).2 = m := by
  rw [invert] at failed ⊢
  split_ifs with square
  · rw [dif_pos square] at failed
    cases factors : factorLU true (m.submatrix id (Fin.cast square)) with
    | none => rfl
    | some tmp =>
      rw [factors] at failed
      contradiction
  · rfl

/-- A matrix is inverted, or found to be singular. -/
theorem invert_cases [IsStrictOrderedRing K] (memory : Fin n → K) (A : Matrix (Fin n) (Fin n) K) :
    (invert memory A).1 = true ∧ A * (invert memory A).2 = 1 ∨ (invert memory A).1 = false ∧ A.det = 0 := by
  have square : A.submatrix id (Fin.cast rfl) = A := rfl
  rw [invert, dif_pos rfl, square]
  rcases factorLU_cases true A with ⟨f, some, done⟩ | ⟨none, i, f, done, zero⟩
  · rw [some]
    exact .inl ⟨rfl, done.inverse rfl⟩
  · rw [none]
    refine .inr ⟨rfl, done.singular fun r left => ?_⟩
    have least := pivot_greatest done.pivoting left
    rw [zero] at least
    exact abs_nonpos_iff.mp least

/-- For every square matrix of exact numbers: it is inverted if and only if it is not singular, the result is then the inverse,
    and otherwise the matrix is left as it is. -/
theorem invert_correct (memory : Fin n → ℚ) (A : Matrix (Fin n) (Fin n) ℚ) :
    ((invert memory A).1 = true ↔ A.det ≠ 0) ∧ ((invert memory A).1 = true → A * (invert memory A).2 = 1) ∧
      ((invert memory A).1 = false → (invert memory A).2 = A) := by
  refine ⟨?_, ?_, invert_unchanged⟩
  · rcases invert_cases memory A with ⟨done, inverse⟩ | ⟨failed, singular⟩
    · have unit : A.det * (invert memory A).2.det = 1 := by rw [← det_mul, inverse, det_one]
      exact iff_of_true done (left_ne_zero_of_mul_eq_one unit)
    · rw [failed, singular]
      simp
  · intro done
    rcases invert_cases memory A with ⟨-, inverse⟩ | ⟨failed, -⟩
    · exact inverse
    · rw [done] at failed
      contradiction

example : invert (fun _ => 7) !![(10 : ℚ), 14; 2, 4] = (true, !![1 / 3, -7 / 6; -1 / 6, 5 / 6]) := by decide +kernel

theorem inverse_correct [IsStrictOrderedRing K] (memory : Fin n → K) {A : Matrix (Fin n) (Fin n) K} (regular : A.det ≠ 0) :
    inverse memory A * A = 1 ∧ A * inverse memory A = 1 := by
  rcases invert_cases memory A with ⟨-, right⟩ | ⟨-, singular⟩
  · exact ⟨mul_eq_one_comm.mp right, right⟩
  · exact absurd singular regular

/-- The smoothing filters have an exact inverse. -/
theorem inverse_smoothing [IsStrictOrderedRing K] {degree : ℕ} (memory : Fin (degree + 1) → K) :
    SavitzkyGolay.Inverts (inverse memory) :=
  fun _ regular => (inverse_correct memory regular).1

/-- The vehicle has an exact inverse, with the rows and columns in any order. -/
theorem inverse_thrusters [IsStrictOrderedRing K] (memory : Fin n → K) (rows : Thrusters.Index ≃ Fin n) (columns : Thrusters.Place ≃ Fin n)
    {A : Matrix Thrusters.Index Thrusters.Place K} (regular : (A.submatrix rows.symm columns.symm).det ≠ 0) :
    ThrusterAllocation.Inverts ((inverse memory (A.submatrix rows.symm columns.symm)).submatrix columns rows) A := by
  obtain ⟨left, right⟩ := inverse_correct memory regular
  generalize inverse memory (A.submatrix rows.symm columns.symm) = X at left right
  have same : A = (A.submatrix rows.symm columns.symm).submatrix rows columns := by
    rw [submatrix_submatrix, Equiv.symm_comp_self, Equiv.symm_comp_self, submatrix_id_id]
  generalize A.submatrix rows.symm columns.symm = B at left right same
  rw [same, ThrusterAllocation.Inverts, submatrix_mul_equiv, submatrix_mul_equiv, left, right, submatrix_one_equiv, submatrix_one_equiv]
  exact ⟨rfl, rfl⟩

end

end Tortuga.MatrixInversion
