import Tortuga.MatrixInversion
import Tortuga.TriangularRoots

/-!
`MatrixN::factorCholesky`: the lower triangle of a matrix becomes its root, row by row, until what is left at a diagonal is
not positive. The numbers are taken as exact; `sqrt` is the square root.
-/
namespace Tortuga.Cholesky
open Matrix
open Tortuga.MatrixInversion
open Tortuga.TriangularFactors
open Tortuga.TriangularRoots

section
variable {K : Type} [Field K] [LinearOrder K] {n : ℕ}

/-- The matrix and the array of the reciprocal diagonals. -/
structure Root (K : Type) (n : ℕ) where
  entries : Matrix (Fin n) (Fin n) K
  invSqrt : Fin n → K

/-- The entries of a row before the diagonal, from the first to the last. -/
def Root.row (s : Root K n) (i : Fin n) : Fin n → K :=
  assign (fun j row => (before j).foldl (fun sum k => sum - row k * s.entries j k) (row j) * s.invSqrt j) (before i) (s.entries i)

/-- One row; where it ends the loop, the matrix is left as it is then. -/
def Root.next (sqrt : K → K) (s : Root K n) (i : Fin n) : Except (Matrix (Fin n) (Fin n) K) (Root K n) :=
  let row := s.row i
  let sum := (before i).foldl (fun sum k => sum - row k * row k) (row i)
  if sum ≤ 0 then .error (of (Function.update (fun j => s.entries j) i row))
  else
    let invSqrt := Function.update s.invSqrt i (1 / sqrt sum)
    .ok { entries := of (Function.update (fun j => s.entries j) i (Function.update row i (invSqrt i * sum))), invSqrt := invSqrt }

/-- The matrix is square, as is asserted at the start. -/
def factorCholesky (sqrt : K → K) (m : Matrix (Fin n) (Fin n) K) : Bool × Matrix (Fin n) (Fin n) K :=
  match (List.finRange n).foldlM (Root.next sqrt) { entries := m, invSqrt := 0 } with
  | .ok s => (true, s.entries)
  | .error m => (false, m)

end

/-! ### One row -/

section
variable {n : ℕ} {i : Fin n} {A : Matrix (Fin n) (Fin n) ℝ} {s : Root ℝ n}

/-- The rows before are those of the root, with the reciprocals of their diagonals. -/
structure Done (A : Matrix (Fin n) (Fin n) ℝ) (k : ℕ) (s : Root ℝ n) : Prop where
  rooted : Rooted A s.entries k
  reciprocal : ∀ r : Fin n, (r : ℕ) < k → s.invSqrt r * s.entries r r = 1

theorem done_start (A : Matrix (Fin n) (Fin n) ℝ) : Done A 0 { entries := A, invSqrt := 0 } :=
  ⟨rooted_zero A, fun _ none => absurd none (Nat.not_lt_zero _)⟩

theorem mem_before {j : Fin n} : j ∈ before i ↔ j < i := by simp [before]

theorem before_sum (f : Fin n → ℝ) (a : ℝ) : (before i).foldl (fun sum j => sum - f j) a = a - ∑ j with j < i, f j :=
  foldl_sub_filter f (· < i) a

/-- The row is changed before the diagonal only. -/
theorem row_after {c : Fin n} (after : i ≤ c) : s.row i c = s.entries i c :=
  assign_other (mt mem_before.mp (not_lt.mpr after))

theorem row_before {c : Fin n} (left : c < i) :
    s.row i c = (s.entries i c - ∑ k with k < c, s.row i k * s.entries c k) * s.invSqrt c := by
  have ordered : (before i).Pairwise (· < ·) := (List.pairwise_lt_finRange n).filter _
  -- An entry reads the entries before it and itself.
  have value := assign_apply (x := s.entries i) (fun _ _ => lt_asymm)
    (g := fun j row => (before j).foldl (fun sum k => sum - row k * s.entries j k) (row j) * s.invSqrt j)
    (fun j _ y z here first => by
      simp only [before_sum, here]
      congr 2
      exact Finset.sum_congr rfl fun k among => by rw [first k (Finset.mem_filter.mp among).2])
    ordered (mem_before.mpr left)
  refine value.trans ?_
  rw [before_sum, Function.update_self]
  congr 2
  refine Finset.sum_congr rfl fun k among => ?_
  rw [Function.update_of_ne (Finset.mem_filter.mp among).2.ne]
  rfl

/-- The row has the product with each row before that the matrix asks for. -/
theorem Done.row_product (done : Done A i s) {c : Fin n} (left : c < i) : ∑ j with j ≤ c, s.row i j * s.entries c j = A i c := by
  rw [sum_upto, row_before left, mul_assoc, done.reciprocal c left, mul_one, done.rooted.rest i c (.inl le_rfl), add_sub_cancel]

theorem Done.sum_eq (done : Done A i s) :
    (before i).foldl (fun sum k => sum - s.row i k * s.row i k) (s.row i i) = remainder A i (s.row i) := by
  rw [before_sum, row_after le_rfl, done.rooted.rest i i (.inl le_rfl), remainder]

/-- A row ends the loop where nothing is left of the diagonal, or is the next row of the root. -/
theorem Done.next (done : Done A i s) :
    (remainder A i (s.row i) ≤ 0 ∧ s.next Real.sqrt i = .error (of (Function.update (fun j => s.entries j) i (s.row i)))) ∨
      ∃ s', s.next Real.sqrt i = .ok s' ∧ Done A (i + 1) s' := by
  rw [Root.next]
  simp only [done.sum_eq, Function.update_self]
  rcases le_or_gt (remainder A i (s.row i)) 0 with nothing | something
  · exact .inl ⟨nothing, if_pos nothing⟩
  · refine .inr ⟨_, if_neg (not_le.mpr something), ?_⟩
    have root : 1 / √(remainder A i (s.row i)) * remainder A i (s.row i) = √(remainder A i (s.row i)) := by
      rw [one_div, inv_mul_eq_div, Real.div_sqrt]
    have positive : 0 < √(remainder A i (s.row i)) := Real.sqrt_pos.mpr something
    generalize to_root : √(remainder A i (s.row i)) = d at root positive
    have square : d * d = remainder A i (s.row i) := by rw [← to_root, Real.mul_self_sqrt something.le]
    have last : (Function.update (s.row i) i d) i = d := Function.update_self ..
    have kept {c : Fin n} (other : c ≠ i) : Function.update (s.row i) i d c = s.row i c := Function.update_of_ne other _ _
    have same : remainder A i (Function.update (s.row i) i d) = remainder A i (s.row i) := by
      rw [remainder, remainder]
      congr 1
      exact Finset.sum_congr rfl fun j among => by rw [kept (Finset.mem_filter.mp among).2.ne]
    rw [root]
    refine ⟨done.rooted.next (fun c left => ?_) (fun c after => ?_) (by rwa [last]) (by rw [last, same, square]), fun r first => ?_⟩
    · rw [← done.row_product left]
      exact Finset.sum_congr rfl fun j among => by rw [kept ((Finset.mem_filter.mp among).2.trans_lt left).ne]
    · rw [kept after.ne', row_after after.le, done.rooted.rest i c (.inl le_rfl)]
    · change Function.update s.invSqrt i (1 / d) r * Function.update (fun j => s.entries j) i (Function.update (s.row i) i d) r r = 1
      have upto : r ≤ i := Nat.lt_succ_iff.mp first
      rcases upto.eq_or_lt with rfl | earlier
      · rw [Function.update_self, Function.update_self, last, one_div_mul_cancel positive.ne']
      · rw [Function.update_of_ne earlier.ne, Function.update_of_ne earlier.ne]
        exact done.reciprocal r earlier

/-! ### All rows -/

theorem step (A : Matrix (Fin n) (Fin n) ℝ) (i : Fin n) (s s' : Root ℝ n) (done : Done A i s) (next : s.next Real.sqrt i = .ok s') :
    Done A (i + 1) s' := by
  rcases done.next with ⟨-, failed⟩ | ⟨more, same, done⟩
  · rw [next] at failed
    contradiction
  · rw [next] at same
    exact Except.ok.inj same ▸ done

/-- The lower triangle of a matrix of real numbers becomes a root of the symmetric matrix that it stands for if and only if that
    matrix is positive definite; the upper triangle is never changed. -/
theorem factorCholesky_correct (A : Matrix (Fin n) (Fin n) ℝ) :
    ((factorCholesky Real.sqrt A).1 = true ↔ (symmetric A).PosDef) ∧
      ((factorCholesky Real.sqrt A).1 = true →
        triangle (factorCholesky Real.sqrt A).2 * (triangle (factorCholesky Real.sqrt A).2)ᵀ = symmetric A ∧
          ∀ i, 0 < (factorCholesky Real.sqrt A).2 i i) ∧
      ∀ r c, r < c → (factorCholesky Real.sqrt A).2 r c = A r c := by
  rw [factorCholesky]
  rcases foldlM_finRange (step A) (done_start A) with ⟨s, ended, done⟩ | ⟨m, i, s, stopped, done, failed⟩
  · rw [ended]
    exact ⟨iff_of_true rfl done.rooted.posDef, fun _ => ⟨done.rooted.root, fun i => done.rooted.positive i i.isLt⟩,
      fun r c above => done.rooted.rest r c (.inr above)⟩
  · rw [stopped]
    rcases done.next with ⟨nothing, same⟩ | ⟨s', next, -⟩
    · refine ⟨iff_of_false Bool.false_ne_true fun posDef => ?_, fun succeeded => absurd succeeded Bool.false_ne_true, fun r c above => ?_⟩
      · exact absurd (done.rooted.remainder_pos (fun c left => done.row_product left) posDef) (not_lt.mpr nothing)
      · rw [failed] at same
        change m r c = A r c
        rw [Except.error.inj same, of_apply, Function.update_apply]
        split_ifs with here
        · rw [here, row_after (here ▸ above.le)]
          exact here ▸ done.rooted.rest r c (.inr above)
        · exact done.rooted.rest r c (.inr above)
    · rw [failed] at next
      contradiction

end

end Tortuga.Cholesky
