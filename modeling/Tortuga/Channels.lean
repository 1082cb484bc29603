import Mathlib.Data.List.Forall2
import Mathlib.Data.List.Perm.Basic
import Tortuga.Machines

/-!
Channels that may lose messages, bring them twice and bring them in another order, and what is left of the messages that are sent when they
do only some of it.
-/
namespace Tortuga.Channels
open Tortuga.Machines

/-- The messages that have been sent, those that are on their way, and those that have arrived. -/
structure Channel (M : Type) where
  sent : List M
  flight : List M
  arrived : List M

inductive Act (M : Type)
  | send (m : M)
  | arrive (i : ℕ)
  | lose (i : ℕ)
  | duplicate (i : ℕ)

section
variable {M N : Type} {c d : Channel M} {acts : List (Act M)}

def step (c : Channel M) : Act M → Option (Channel M)
  | .send m => some { c with sent := c.sent ++ [m], flight := c.flight ++ [m] }
  | .arrive i => c.flight[i]?.map fun m => { c with flight := c.flight.eraseIdx i, arrived := c.arrived ++ [m] }
  | .lose i => c.flight[i]?.map fun _ => { c with flight := c.flight.eraseIdx i }
  | .duplicate i => c.flight[i]?.map fun m => { c with flight := c.flight ++ [m] }

def empty : Channel M := ⟨[], [], []⟩

/-- No message is brought twice. -/
def Once (act : Act M) : Prop := ∀ i, act ≠ .duplicate i

/-- The message that is brought has been on its way for the longest time. -/
def Ordered (act : Act M) : Prop := ∀ i, act = .arrive i → i = 0

/-- No message is lost. -/
def Whole (act : Act M) : Prop := ∀ i, act ≠ .lose i

theorem taken_perm {i : ℕ} {m : M} {flight : List M} (there : flight[i]? = some m) : (m :: flight.eraseIdx i).Perm flight := by
  obtain ⟨less, rfl⟩ := List.getElem?_eq_some_iff.mp there
  exact List.getElem_cons_eraseIdx_perm less

theorem arrived_perm {i : ℕ} {m : M} (there : c.flight[i]? = some m) :
    ((c.arrived ++ [m]) ++ c.flight.eraseIdx i).Perm (c.arrived ++ c.flight) := by
  rw [List.append_assoc]
  exact (taken_perm there).append_left c.arrived

/-- Only what has been sent arrives. -/
theorem arrived_subset (run : runs step empty acts = some c) : c.arrived ++ c.flight ⊆ c.sent := by
  refine runs_invariant (I := fun _ c => c.arrived ++ c.flight ⊆ c.sent) (List.nil_subset _) (fun _ act c d _ inside stepped => ?_) run
  cases act with
  | send m =>
    obtain rfl := Option.some_inj.mp stepped
    rw [← List.append_assoc]
    exact List.append_subset.mpr ⟨List.Subset.trans inside (List.subset_append_left _ _), List.subset_append_right _ _⟩
  | arrive i =>
    obtain ⟨m, there, rfl⟩ := Option.map_eq_some_iff.mp stepped
    exact List.Subset.trans (arrived_perm there).subset inside
  | lose i =>
    obtain ⟨m, there, rfl⟩ := Option.map_eq_some_iff.mp stepped
    exact List.Subset.trans ((List.eraseIdx_sublist c.flight i).append_left c.arrived).subset inside
  | duplicate i =>
    obtain ⟨m, there, rfl⟩ := Option.map_eq_some_iff.mp stepped
    rw [← List.append_assoc]
    have among : m ∈ c.sent := inside (List.mem_append_right _ (List.mem_of_getElem? there))
    exact List.append_subset.mpr ⟨inside, List.cons_subset.mpr ⟨among, List.nil_subset _⟩⟩

/-- When no message is brought twice, each arrives once at most. -/
theorem arrived_subperm (run : runs step empty acts = some c) (once : ∀ act ∈ acts, Once act) : (c.arrived ++ c.flight).Subperm c.sent := by
  refine runs_every (P := fun _ => Once) (I := fun c => (c.arrived ++ c.flight).Subperm c.sent) (fun c act d inside fine stepped => ?_)
    (List.nil_sublist _).subperm (every_of_all fun act among _ => once act among) run
  cases act with
  | send m =>
    obtain rfl := Option.some_inj.mp stepped
    rw [← List.append_assoc]
    exact (List.subperm_append_right [m]).mpr inside
  | arrive i =>
    obtain ⟨m, there, rfl⟩ := Option.map_eq_some_iff.mp stepped
    exact (arrived_perm there).subperm.trans inside
  | lose i =>
    obtain ⟨m, there, rfl⟩ := Option.map_eq_some_iff.mp stepped
    exact ((List.eraseIdx_sublist c.flight i).append_left c.arrived).subperm.trans inside
  | duplicate i => exact absurd rfl (fine i)

/-- When they come in their order as well, they do so up to those that are lost. -/
theorem arrived_sublist (run : runs step empty acts = some c) (once : ∀ act ∈ acts, Once act) (ordered : ∀ act ∈ acts, Ordered act) :
    (c.arrived ++ c.flight).Sublist c.sent := by
  refine runs_every (P := fun _ act => Once act ∧ Ordered act) (I := fun c => (c.arrived ++ c.flight).Sublist c.sent)
    (fun c act d inside fine stepped => ?_) (List.nil_sublist _) (every_of_all fun act among _ => ⟨once act among, ordered act among⟩) run
  cases act with
  | send m =>
    obtain rfl := Option.some_inj.mp stepped
    rw [← List.append_assoc]
    exact List.Sublist.append_right inside [m]
  | arrive i =>
    obtain rfl := fine.2 i rfl
    obtain ⟨m, there, rfl⟩ := Option.map_eq_some_iff.mp stepped
    obtain ⟨rest, flight⟩ : ∃ rest, c.flight = m :: rest := by
      cases flight : c.flight with
      | nil => simp [flight] at there
      | cons n rest =>
        rw [flight] at there
        exact ⟨rest, by rw [Option.some_inj.mp there]⟩
    rw [flight] at inside ⊢
    rwa [List.eraseIdx_cons_zero, List.append_assoc]
  | lose i =>
    obtain ⟨m, there, rfl⟩ := Option.map_eq_some_iff.mp stepped
    exact ((List.eraseIdx_sublist c.flight i).append_left c.arrived).trans inside
  | duplicate i => exact absurd rfl (fine.1 i)

/-- When none is lost either, all of them have arrived or are on their way. -/
theorem arrived_all (run : runs step empty acts = some c) (once : ∀ act ∈ acts, Once act) (ordered : ∀ act ∈ acts, Ordered act)
    (whole : ∀ act ∈ acts, Whole act) :
    c.arrived ++ c.flight = c.sent := by
  refine (arrived_sublist run once ordered).eq_of_length ?_
  refine runs_every (P := fun _ act => Once act ∧ Whole act) (I := fun c => (c.arrived ++ c.flight).length = c.sent.length)
    (fun c act d count fine stepped => ?_) rfl (every_of_all fun act among _ => ⟨once act among, whole act among⟩) run
  cases act with
  | send m =>
    obtain rfl := Option.some_inj.mp stepped
    have one (l : List M) : (l ++ [m]).length = l.length + 1 := List.length_append
    rw [← List.append_assoc, one, one, count]
  | arrive i =>
    obtain ⟨m, there, rfl⟩ := Option.map_eq_some_iff.mp stepped
    exact (arrived_perm there).length_eq.trans count
  | lose i => exact absurd rfl (fine.2 i)
  | duplicate i => exact absurd rfl (fine.1 i)

end

/-! ### Lists whose members belong together -/

section
variable {M N : Type} {R : M → N → Prop} {xs : List M} {ys : List N} {x : M} {y : N}

theorem forall₂_getElem? (both : List.Forall₂ R xs ys) {i : ℕ} (there : ys[i]? = some y) : ∃ x, xs[i]? = some x ∧ R x y := by
  induction both generalizing i with
  | nil => contradiction
  | @cons x z xs ys related both ih =>
    cases i with
    | zero =>
      obtain rfl := Option.some_inj.mp there
      exact ⟨x, rfl, related⟩
    | succ i => exact ih there

theorem forall₂_eraseIdx (both : List.Forall₂ R xs ys) (i : ℕ) : List.Forall₂ R (xs.eraseIdx i) (ys.eraseIdx i) := by
  induction both generalizing i with
  | nil => exact .nil
  | cons related both ih =>
    cases i with
    | zero => exact both
    | succ i => exact .cons related (ih i)

theorem forall₂_snoc (both : List.Forall₂ R xs ys) (related : R x y) : List.Forall₂ R (xs ++ [x]) (ys ++ [y]) :=
  List.rel_append both (.cons related .nil)

end

end Tortuga.Channels
