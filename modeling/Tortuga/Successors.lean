import Mathlib.Data.List.Infix
import Mathlib.Data.List.Nodup
import Mathlib.Tactic.Cases

/-!
A list kept as a map from each element to the next one, and what is found when the map is
followed from the first element.
-/
namespace Tortuga.Successors
set_option linter.unusedSimpArgs false

section
variable {α : Type} {next : α → Option α} {e a b : α} {l l' : List α}

/-- The elements that are met from `a` on, until `e` is there. -/
inductive Walk (next : α → Option α) (e : α) : α → List α → Prop
  | stop : Walk next e e []
  | step {a b : α} {l : List α} : a ≠ e → next a = some b → Walk next e b l → Walk next e a (a :: l)

theorem Walk.unique (first : Walk next e a l) (second : Walk next e a l') : l = l' := by
  induction first generalizing l' with
  | stop =>
    cases second with
    | stop => rfl
    | step other => exact absurd rfl other
  | step other there _ ih =>
    cases second with
    | stop => exact absurd rfl other
    | step _ here rest =>
      rw [there] at here
      cases here
      rw [ih rest]

/-- From every element that is met the walk goes on as it does here. -/
theorem Walk.behind (walk : Walk next e a l) (member : b ∈ l) : ∃ l', Walk next e b l' ∧ l' <:+ l := by
  induction walk with
  | stop => cases member
  | step other there rest ih =>
    rcases List.mem_cons.mp member with rfl | later
    · exact ⟨_, .step other there rest, List.suffix_rfl⟩
    · obtain ⟨l', walk, behind⟩ := ih later
      exact ⟨l', walk, behind.trans (List.suffix_cons _ _)⟩

theorem Walk.not_mem_end (walk : Walk next e a l) : e ∉ l := by
  induction walk with
  | stop => exact List.not_mem_nil
  | step other _ _ ih =>
    intro member
    rcases List.mem_cons.mp member with rfl | later
    · exact other rfl
    · exact ih later

/-- A walk that comes to the end meets nothing twice. -/
theorem Walk.nodup (walk : Walk next e a l) : l.Nodup := by
  induction walk with
  | stop => exact List.nodup_nil
  | step other there rest ih =>
    refine List.nodup_cons.mpr ⟨fun member => ?_, ih⟩
    obtain ⟨l', again, behind⟩ := rest.behind member
    have same := again.unique (.step other there rest)
    have shorter := behind.length_le
    rw [same, List.length_cons] at shorter
    omega

variable [DecidableEq α]

/-- What stands behind the last place of an element, and `e` behind the last of all. -/
def successor (e : α) : List α → α → Option α
  | [], _ => none
  | a :: l, x => (successor e l x).or (if x = a then some (l.headD e) else none)

theorem successor_eq_none (new : a ∉ l) : successor e l a = none := by
  induction l with
  | nil => rfl
  | cons b l ih =>
    obtain ⟨other, later⟩ := not_or.mp (mt List.mem_cons.mpr new)
    rw [successor, ih later, if_neg other]
    rfl

theorem successor_append (distinct : (l ++ a :: l').Nodup) : successor e (l ++ a :: l') a = some (l'.headD e) := by
  induction l with
  | nil =>
    rw [List.nil_append, successor, successor_eq_none (List.nodup_cons.mp distinct).1, if_pos rfl]
    rfl
  | cons b l ih => rw [List.cons_append, successor, ih (List.nodup_cons.mp distinct).2, Option.some_or]

/-- Without repetitions the map leads through the whole list. -/
theorem walk_successor (distinct : l.Nodup) (other : e ∉ l) : Walk (successor e l) e (l.headD e) l := by
  have rest (before after : List α) (split : l = before ++ after) : Walk (successor e l) e (after.headD e) after := by
    induction after generalizing before with
    | nil => exact .stop
    | cons a after ih =>
      have next : successor e l a = some (after.headD e) := by
        rw [split] at distinct ⊢
        exact successor_append distinct
      have here : a ≠ e := by
        rintro rfl
        rw [split] at other
        exact other (by simp)
      exact .step here next (ih (before ++ [a]) (by rw [split, List.append_cons]))
  exact rest [] l rfl

theorem walk_successor_iff : Walk (successor e l) e (l.headD e) l ↔ l.Nodup ∧ e ∉ l :=
  ⟨fun walk => ⟨walk.nodup, walk.not_mem_end⟩, fun both => walk_successor both.1 both.2⟩

end

end Tortuga.Successors
