import Tortuga.Machines

/-!
Machines that take a command and then its parameters, one input after the other, and what makes
such a machine deaf.
-/
namespace Tortuga.Listeners
open Tortuga.Machines

structure Listener (S A : Type) where
  next : S → A → S
  /-- The next input is a command. -/
  top : S → Prop
  /-- What a command does. -/
  execute : A → S → S
  /-- The inputs that the pending command still has to get. -/
  pending : S → ℕ

section
variable {S A : Type} (L : Listener S A)

/-- The machine is back at the top after as many inputs as its command waits for, and no sooner. At
    the top it executes what it gets. -/
structure Attentive (s : S) : Prop where
  back : ∀ acts : List A, acts.length ≤ L.pending s → (L.top (after L.next s acts) ↔ acts.length = L.pending s)
  executes : L.top s → ∀ a, L.next s a = L.execute a s

/-- The rules of a machine with the invariant `I`, which is deaf after the inputs that make it so. -/
structure Counts (I Deaf : S → Prop) (Deafens : S → A → Prop) : Prop where
  keeps : ∀ s a, I s → I (L.next s a)
  top : ∀ s, I s → ¬ Deaf s → (L.top s ↔ L.pending s = 0)
  executes : ∀ s a, L.top s → L.next s a = L.execute a s
  param : ∀ s a, I s → ¬ Deaf s → ¬ L.top s → ¬ Deafens s a ∧ ¬ Deaf (L.next s a) ∧ L.pending (L.next s a) + 1 = L.pending s
  command : ∀ s a, I s → L.top s → (Deaf (L.next s a) ↔ Deafens s a)
  deaf : ∀ s a, Deaf s → ¬ L.top s ∧ Deaf (L.next s a)

variable {L} {I Deaf : S → Prop} {Deafens : S → A → Prop} (rules : Counts L I Deaf Deafens) {s : S}
include rules

theorem Counts.deaf_after (deaf : Deaf s) (acts : List A) : Deaf (after L.next s acts) := by
  induction acts generalizing s with
  | nil => exact deaf
  | cons a rest ih => exact ih (rules.deaf s a deaf).2

theorem Counts.keeps_after (inv : I s) (acts : List A) : I (after L.next s acts) := by
  induction acts generalizing s with
  | nil => exact inv
  | cons a rest ih => exact ih (rules.keeps s a inv)

/-- Each parameter is one of those that the command waits for. -/
theorem Counts.back (inv : I s) (hears : ¬ Deaf s) (acts : List A) (few : acts.length ≤ L.pending s) :
    L.top (after L.next s acts) ↔ acts.length = L.pending s := by
  induction acts generalizing s with
  | nil =>
    rw [after_nil, rules.top s inv hears]
    exact eq_comm
  | cons a rest ih =>
    rw [List.length_cons] at few ⊢
    have waits : ¬ L.top s := by
      rw [rules.top s inv hears]
      exact Nat.ne_of_gt (Nat.lt_of_lt_of_le (Nat.succ_pos _) few)
    obtain ⟨-, still, count⟩ := rules.param s a inv hears waits
    rw [← count] at few ⊢
    rw [after_cons, ih (rules.keeps s a inv) still (Nat.le_of_succ_le_succ few), Nat.add_right_cancel_iff]

/-- A deaf machine is not back after the inputs that its command waits for. -/
theorem Counts.attentive_iff [Inhabited A] (inv : I s) : Attentive L s ↔ ¬ Deaf s := by
  constructor
  · intro attentive deaf
    have length : (List.replicate (L.pending s) (default : A)).length = L.pending s := List.length_replicate
    have back := (attentive.back _ (Nat.le_of_eq length)).mpr length
    exact (rules.deaf _ default (rules.deaf_after deaf _)).1 back
  · intro hears
    exact ⟨rules.back inv hears, fun top a => rules.executes s a top⟩

theorem Counts.hears_iff (inv : I s) (hears : ¬ Deaf s) (acts : List A) :
    ¬ Deaf (after L.next s acts) ↔ Each L.next (fun s a => ¬ Deafens s a) s acts := by
  induction acts generalizing s with
  | nil => exact ⟨fun _ => trivial, fun _ => hears⟩
  | cons a rest ih =>
    rw [after_cons]
    by_cases deaf : Deaf (L.next s a)
    · constructor
      · exact fun later => absurd (rules.deaf_after deaf rest) later
      · rintro ⟨quiet, -⟩
        by_cases top : L.top s
        · exact absurd ((rules.command s a inv top).mp deaf) quiet
        · exact absurd deaf (rules.param s a inv hears top).2.1
    · rw [ih (rules.keeps s a inv) deaf]
      refine ⟨fun later => ⟨?_, later⟩, fun each => each.2⟩
      by_cases top : L.top s
      · exact fun deafens => deaf ((rules.command s a inv top).mpr deafens)
      · exact (rules.param s a inv hears top).1

/-- A machine is attentive after a run just when no input of the run has made it deaf. -/
theorem Counts.attentive_after [Inhabited A] (inv : I s) (hears : ¬ Deaf s) (acts : List A) :
    Attentive L (after L.next s acts) ↔ Each L.next (fun s a => ¬ Deafens s a) s acts := by
  rw [rules.attentive_iff (rules.keeps_after inv acts), rules.hears_iff inv hears acts]

end

end Tortuga.Listeners
