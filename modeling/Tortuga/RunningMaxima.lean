import Mathlib.Data.List.Induction
import Mathlib.Order.Lattice

/-!
The greatest value so far, and where it was first seen.
-/
namespace Tortuga.RunningMaxima

variable {α β : Type} [LinearOrder β]

/-- One element more: it is kept if its value exceeds the greatest before. -/
def exceed (value : α → β) (best : β × α) (x : α) : β × α := if best.1 < value x then (value x, x) else best

/-- `x` is the first of the elements with the greatest value. -/
def First (value : α → β) (l : List α) (x : α) : Prop :=
  ∃ before after, l = before ++ x :: after ∧ (∀ y ∈ before, value y < value x) ∧ ∀ y ∈ after, value y ≤ value x

section
variable {value : α → β} {l : List α} {x : α} {best : β × α}

theorem First.mem (first : First value l x) : x ∈ l := by
  obtain ⟨before, after, rfl, -, -⟩ := first
  exact List.mem_append_right _ List.mem_cons_self

theorem First.greatest (first : First value l x) : ∀ y ∈ l, value y ≤ value x := by
  obtain ⟨before, after, rfl, less, le⟩ := first
  intro y there
  rcases List.mem_append.mp there with earlier | later
  · exact (less y earlier).le
  · rcases List.mem_cons.mp later with rfl | later
    · exact le_rfl
    · exact le y later

/-- What the elements leave: the first of the greatest, if one exceeds the value at the start. -/
theorem foldl_exceed (value : α → β) (l : List α) (best : β × α) :
    (l.foldl (exceed value) best = best ∧ ∀ y ∈ l, value y ≤ best.1) ∨
      ∃ x, l.foldl (exceed value) best = (value x, x) ∧ best.1 < value x ∧ First value l x := by
  induction l using List.reverseRecOn with
  | nil => exact .inl ⟨rfl, fun y none => absurd none List.not_mem_nil⟩
  | append_singleton l x ih =>
    rw [List.foldl_append, List.foldl_cons, List.foldl_nil]
    rcases ih with ⟨same, below⟩ | ⟨z, same, above, before, after, rfl, less, le⟩
    · rw [same, exceed]
      split_ifs with more
      · refine .inr ⟨x, rfl, more, l, [], rfl, fun y earlier => (below y earlier).trans_lt more, ?_⟩
        exact fun y none => absurd none List.not_mem_nil
      · refine .inl ⟨rfl, fun y there => ?_⟩
        rcases List.mem_append.mp there with earlier | last
        · exact below y earlier
        · exact List.mem_singleton.mp last ▸ not_lt.mp more
    · rw [same, exceed]
      split_ifs with more
      · have first : First value (before ++ z :: after) z := ⟨before, after, rfl, less, le⟩
        refine .inr ⟨x, rfl, above.trans more, before ++ z :: after, [], rfl, fun y earlier => ?_, ?_⟩
        · exact (first.greatest y earlier).trans_lt more
        · exact fun y none => absurd none List.not_mem_nil
      · refine .inr ⟨z, rfl, above, before, after ++ [x], ?_, less, fun y there => ?_⟩
        · rw [List.append_assoc, List.cons_append]
        · rcases List.mem_append.mp there with earlier | last
          · exact le y earlier
          · exact List.mem_singleton.mp last ▸ not_lt.mp more

end

end Tortuga.RunningMaxima
