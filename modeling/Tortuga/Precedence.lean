import Mathlib.Data.List.Basic
import Mathlib.Data.Nat.Notation
import Mathlib.Data.Set.Finite.List
import Mathlib.Logic.Relation
import Mathlib.Order.WellFounded
import Mathlib.Tactic.Cases

/-!
Lists that are split at an element, and lists in which everything that an element needs stands before it.
-/
namespace Tortuga.Precedence

/-- A longer list is split at its last element, or where the shorter one is. -/
theorem split_concat {α : Type*} {l before after : List α} {x y : α} : l ++ [y] = before ++ x :: after ↔
    (before = l ∧ x = y ∧ after = []) ∨ ∃ rest, after = rest ++ [y] ∧ l = before ++ x :: rest := by
  constructor
  · intro split
    rcases List.eq_nil_or_concat' after with rfl | ⟨rest, last, rfl⟩
    · obtain ⟨rfl, same⟩ := List.append_inj' split rfl
      exact .inl ⟨rfl, (List.singleton_inj.mp same).symm, rfl⟩
    · rw [← List.cons_append, ← List.append_assoc] at split
      obtain ⟨rfl, same⟩ := List.append_inj' split rfl
      exact .inr ⟨rest, by rw [List.singleton_inj.mp same], rfl⟩
  · rintro (⟨rfl, rfl, rfl⟩ | ⟨rest, rfl, rfl⟩)
    · rfl
    · rw [List.append_assoc, List.cons_append]

/-- All elements of a list are as they should, or one is the first that is not. -/
theorem first_that_fails {α : Type} (P : α → Prop) (l : List α) :
    (∀ e ∈ l, P e) ∨ ∃ before e after, l = before ++ e :: after ∧ (∀ x ∈ before, P x) ∧ ¬ P e := by
  induction l with
  | nil => exact .inl (by simp)
  | cons e l ih =>
    by_cases holds : P e
    · rcases ih with all | ⟨before, x, after, rfl, all, fails⟩
      · exact .inl (List.forall_mem_cons.mpr ⟨holds, all⟩)
      · exact .inr ⟨e :: before, x, after, rfl, List.forall_mem_cons.mpr ⟨holds, all⟩, fails⟩
    · exact .inr ⟨[], e, l, rfl, by simp, holds⟩

section
variable {α β : Type}

/-- No element needs itself through a chain of others. -/
def Acyclic (needs : α → α → Prop) : Prop := ∀ a, ¬ Relation.TransGen needs a a

/-- `needs a b`: `a` is needed by `b`. Whatever an element needs stands before it. -/
def Respects (needs : α → α → Prop) (l : List α) : Prop :=
  ∀ before b after, l = before ++ b :: after → ∀ a, needs a b → a ∈ before

variable {needs : α → α → Prop} {l : List α}

theorem Acyclic.of_map {other : β → β → Prop} (f : α → β) (map : ∀ a b, needs a b → other (f a) (f b))
    (acyclic : Acyclic other) : Acyclic needs := fun a cycle => acyclic (f a) (cycle.lift f map)

/-- A rank that grows from what is needed to what needs it. -/
theorem acyclic_of_rank (rank : α → ℕ) (grows : ∀ a b, needs a b → rank a < rank b) : Acyclic needs := by
  have chain : ∀ a b, Relation.TransGen needs a b → rank a < rank b := by
    intro a b steps
    induction steps with
    | single step => exact grows _ _ step
    | tail _ step ih => exact Nat.lt_trans ih (grows _ _ step)
  exact fun a cycle => Nat.lt_irrefl _ (chain a a cycle)

/-- Among some elements one needs none of the others. -/
theorem Acyclic.exists_first (acyclic : Acyclic needs) (nonempty : l ≠ []) : ∃ b ∈ l, ∀ a ∈ l, ¬ needs a b := by
  have inside : Std.Irrefl fun a b : {a // a ∈ l} => Relation.TransGen needs a b := ⟨fun a => acyclic a⟩
  have chains : IsTrans {a // a ∈ l} fun a b => Relation.TransGen needs a b := ⟨fun _ _ _ first second => first.trans second⟩
  have finite : Finite {a // a ∈ l} := l.finite_toSet
  obtain ⟨x, member⟩ := List.exists_mem_of_ne_nil l nonempty
  obtain ⟨b, _, first⟩ := (Finite.wellFounded_of_trans_of_irrefl fun a b : {a // a ∈ l} => Relation.TransGen needs a b).has_min
    Set.univ ⟨⟨x, member⟩, trivial⟩
  exact ⟨b, b.2, fun a member need => first ⟨a, member⟩ trivial (.single need)⟩

theorem respects_nil : Respects needs [] := by
  intro before b after split
  cases before <;> cases split

/-- One more element at the end, after all that it needs. -/
theorem Respects.snoc {b : α} (respects : Respects needs l) (has : ∀ a, needs a b → a ∈ l) : Respects needs (l ++ [b]) := by
  intro before c after split a need
  rcases split_concat.mp split with ⟨rfl, rfl, -⟩ | ⟨rest, -, split⟩
  · exact has a need
  · exact respects before c rest split a need

/-- The front of a list. -/
theorem Respects.front {xs ys : List α} (respects : Respects needs (xs ++ ys)) : Respects needs xs := by
  intro before b after split a need
  exact respects before b (after ++ ys) (by rw [split]; simp) a need

/-- Elements that need nothing may come first. -/
theorem Respects.after_free {free : List α} (respects : Respects needs l) (nothing : ∀ b ∈ free, ∀ a, ¬ needs a b) :
    Respects needs (free ++ l) := by
  intro before b after split a need
  rcases List.append_eq_append_iff.mp split with ⟨rest, rfl, here⟩ | ⟨rest, rfl, here⟩
  · exact List.mem_append_right _ (respects rest b after here a need)
  · cases rest with
    | nil =>
      have mem := respects [] b after (by simpa using here.symm) a need
      cases mem
    | cons c rest =>
      cases here
      exact absurd need (nothing b (by simp) a)

/-- The other way round the other relation is respected. -/
theorem Respects.reverse (respects : Respects needs l) (nodup : l.Nodup) (inside : ∀ a b, needs a b → b ∈ l) :
    Respects (fun a b => needs b a) l.reverse := by
  intro before b after split a need
  have whole : l = after.reverse ++ b :: before.reverse := by
    rw [← List.reverse_reverse l, split]
    simp
  have fresh : b ∉ after.reverse ∧ b ∉ before.reverse := by
    rw [whole] at nodup
    obtain ⟨_, later, apart⟩ := List.nodup_append.mp nodup
    exact ⟨fun mem => apart b mem b List.mem_cons_self rfl, (List.nodup_cons.mp later).1⟩
  have mem := inside b a need
  rw [whole] at mem
  rcases List.mem_append.mp mem with early | late
  · obtain ⟨xs, ys, parts⟩ := List.append_of_mem early
    have first : b ∈ xs := respects xs a (ys ++ b :: before.reverse) (by rw [whole, parts]; simp) b need
    exact absurd (by rw [parts]; exact List.mem_append_left _ first) fresh.1
  · rcases List.mem_cons.mp late with same | there
    · subst same
      exact absurd (respects after.reverse a before.reverse whole a need) fresh.1
    · exact List.mem_reverse.mp there

/-- The names of the elements, under names that tell them apart. -/
theorem Respects.map {other : β → β → Prop} {f : α → β} (respects : Respects needs l)
    (named : ∀ b ∈ l, ∀ y, other y (f b) → ∃ a, needs a b ∧ f a = y) : Respects other (l.map f) := by
  intro before y after split x need
  obtain ⟨first, rest, rfl, rfl, later⟩ := List.map_eq_append_iff.mp split
  obtain ⟨b, last, rfl, rfl, rfl⟩ := List.map_eq_cons_iff.mp later
  obtain ⟨a, needed, rfl⟩ := named b (by simp) x need
  exact List.mem_map_of_mem (respects first b last rfl a needed)

/-- An element of a set of elements with `P` that holds whatever its elements need: of the
    largest such set, that is. -/
def Largest (P : α → Prop) (needs : α → α → Prop) (n : α) : Prop :=
  ∃ A : α → Prop, (∀ m, A m → P m ∧ ∀ d, needs d m → A d) ∧ A n

theorem largest_iff {P : α → Prop} {n : α} : Largest P needs n ↔ P n ∧ ∀ d, needs d n → Largest P needs d := by
  constructor
  · rintro ⟨A, closed, mem⟩
    exact ⟨(closed n mem).1, fun d need => ⟨A, closed, (closed n mem).2 d need⟩⟩
  · rintro ⟨fits, below⟩
    refine ⟨fun m => m = n ∨ Largest P needs m, fun m mem => ?_, .inl rfl⟩
    rcases mem with rfl | ⟨A, closed, mem⟩
    · exact ⟨fits, fun d need => .inr (below d need)⟩
    · exact ⟨(closed m mem).1, fun d need => .inr ⟨A, closed, (closed m mem).2 d need⟩⟩

end

end Tortuga.Precedence
