import Tortuga.Machines
import Mathlib.Data.List.Basic
import Mathlib.Logic.Function.Basic

/-!
`ThreadedQueue`: a queue under a mutex, with a condition on which consumers wait. A
consumer takes the front of the queue when it is woken, and does not look again whether
there is one.
-/
namespace Tortuga.ThreadedQueue
open Tortuga.Machines
set_option linter.unusedSimpArgs false

/-! ### The threads -/

/-- A consumer that has given up the lock, in `wait` or in `timed_wait`. -/
inductive Wait where
  | popWait
  | popTimedWait
  deriving DecidableEq, Repr

/-- `m_queue` and the threads that wait, with what has been pushed and what each consumer has
    got. `misused` says that `front()` and `pop()` have been applied to an empty queue. -/
structure Shared (T : Type) where
  queue : List T
  waits : ℕ → Option Wait
  pushed : List T
  popped : List (ℕ × T)
  misused : Bool

/-- What a thread does while it holds the lock. -/
inductive Act (T : Type) where
  | push (thread : ℕ) (newData : T)
  | popNoWait (thread : ℕ)
  | popWait (thread : ℕ)
  | popTimedWait (thread : ℕ)
  | wake (thread : ℕ)
  | timeout (thread : ℕ)
  deriving DecidableEq, Repr

variable {T : Type}

namespace Shared

/-- `front()` and `pop()`. -/
def take (s : Shared T) (thread : ℕ) : Shared T :=
  match s.queue with
  | x :: rest => { s with queue := rest, popped := s.popped ++ [(thread, x)] }
  | [] => { s with misused := true }

/-- The thread waits, or does so no longer. -/
def put (s : Shared T) (thread : ℕ) (wait : Option Wait) : Shared T :=
  { s with waits := Function.update s.waits thread wait }

/-- `popWait` and `popTimedWait` up to the wait. -/
def pop (s : Shared T) (thread : ℕ) (wait : Wait) : Shared T :=
  if s.queue = [] then s.put thread (some wait) else s.take thread

end Shared

/-- The next critical section, when its thread can enter it. A thread that waits can be woken
    at any time, by `notify_one` or without a reason. -/
def step (s : Shared T) : Act T → Option (Shared T)
  | .push thread newData => match s.waits thread with
    | none => some { s with queue := s.queue ++ [newData], pushed := s.pushed ++ [newData] }
    | some _ => none
  | .popNoWait thread => match s.waits thread with
    | none => some (if s.queue = [] then s else s.take thread)
    | some _ => none
  | .popWait thread => match s.waits thread with
    | none => some (s.pop thread .popWait)
    | some _ => none
  | .popTimedWait thread => match s.waits thread with
    | none => some (s.pop thread .popTimedWait)
    | some _ => none
  | .wake thread => match s.waits thread with
    | some _ => some ((s.put thread none).take thread)
    | none => none
  | .timeout thread => match s.waits thread with
    | some .popTimedWait => some (s.put thread none)
    | _ => none

/-- An empty queue, and no thread waits. -/
def start : Shared T := ⟨[], fun _ => none, [], [], false⟩

/-- No empty queue has been read, and what the consumers have got is what was pushed first. -/
structure Delivered (s : Shared T) : Prop where
  read : s.misused = false
  order : s.popped.map Prod.snd <+: s.pushed

/-- A consumer that is woken finds the queue non-empty. -/
def Ready (s : Shared T) : Act T → Prop
  | .wake _ => s.queue ≠ []
  | _ => True

/-! ### One step -/

section
variable {s t : Shared T} {a : Act T}

/-- The queue is as it was, and so is what has been pushed and popped. -/
structure Same (s t : Shared T) : Prop where
  queue : t.queue = s.queue
  pushed : t.pushed = s.pushed
  popped : t.popped = s.popped
  misused : t.misused = s.misused

/-- The front of the queue has gone to a consumer. -/
structure Takes (s t : Shared T) (thread : ℕ) (x : T) : Prop where
  queue : s.queue = x :: t.queue
  pushed : t.pushed = s.pushed
  popped : t.popped = s.popped ++ [(thread, x)]
  misused : t.misused = s.misused

theorem take_cases (s : Shared T) (thread : ℕ) (some : s.queue ≠ []) : ∃ x, Takes s (s.take thread) thread x := by
  obtain ⟨x, rest, queue⟩ := List.exists_cons_of_ne_nil some
  rw [Shared.take, queue]
  exact ⟨x, queue, rfl, rfl, rfl⟩

theorem pop_cases (s : Shared T) (thread : ℕ) (wait : Wait) :
    Same s (s.pop thread wait) ∨ ∃ x, Takes s (s.pop thread wait) thread x := by
  rw [Shared.pop]
  split
  · exact .inl ⟨rfl, rfl, rfl, rfl⟩
  · next some => exact .inr (take_cases s thread some)

/-- What a possible step leads to. -/
theorem step_cases (stepped : step s a = some t) :
    (∃ thread x, a = .push thread x ∧ t.queue = s.queue ++ [x] ∧ t.pushed = s.pushed ++ [x] ∧ t.popped = s.popped ∧
      t.misused = s.misused) ∨
    Same s t ∨ (∃ thread x, Takes s t thread x) ∨
    ∃ thread, a = .wake thread ∧ s.queue = [] ∧ t.misused = true := by
  cases a with
  | push thread x =>
    rw [step] at stepped
    split at stepped
    case h_1 =>
      cases Option.some_inj.mp stepped
      exact .inl ⟨thread, x, rfl, rfl, rfl, rfl, rfl⟩
    case h_2 => contradiction
  | popNoWait thread =>
    rw [step] at stepped
    split at stepped
    case h_1 =>
      cases Option.some_inj.mp stepped
      split
      · exact .inr (.inl ⟨rfl, rfl, rfl, rfl⟩)
      · next some => exact .inr (.inr (.inl ⟨thread, take_cases s thread some⟩))
    case h_2 => contradiction
  | popWait thread =>
    rw [step] at stepped
    split at stepped
    case h_1 =>
      cases Option.some_inj.mp stepped
      rcases pop_cases s thread .popWait with same | takes
      · exact .inr (.inl same)
      · exact .inr (.inr (.inl ⟨thread, takes⟩))
    case h_2 => contradiction
  | popTimedWait thread =>
    rw [step] at stepped
    split at stepped
    case h_1 =>
      cases Option.some_inj.mp stepped
      rcases pop_cases s thread .popTimedWait with same | takes
      · exact .inr (.inl same)
      · exact .inr (.inr (.inl ⟨thread, takes⟩))
    case h_2 => contradiction
  | wake thread =>
    rw [step] at stepped
    split at stepped
    case h_1 =>
      cases Option.some_inj.mp stepped
      by_cases empty : s.queue = []
      · refine .inr (.inr (.inr ⟨thread, rfl, empty, ?_⟩))
        simp [Shared.take, Shared.put, empty]
      · obtain ⟨x, takes⟩ := take_cases (s.put thread none) thread empty
        exact .inr (.inr (.inl ⟨thread, x, takes.queue, takes.pushed, takes.popped, takes.misused⟩))
    case h_2 => contradiction
  | timeout thread =>
    rw [step] at stepped
    split at stepped
    case h_1 =>
      cases Option.some_inj.mp stepped
      exact .inr (.inl ⟨rfl, rfl, rfl, rfl⟩)
    case h_2 => contradiction

/-- What has been pushed is what has been popped and what is in the queue. -/
structure Inv (s : Shared T) : Prop where
  read : s.misused = false
  total : s.popped.map Prod.snd ++ s.queue = s.pushed

theorem inv_start : Inv (start : Shared T) := ⟨rfl, rfl⟩

theorem Inv.delivered (inv : Inv s) : Delivered s := ⟨inv.read, inv.total ▸ List.prefix_append _ _⟩

theorem Inv.step (inv : Inv s) (ready : Ready s a) (stepped : step s a = some t) : Inv t := by
  obtain ⟨read, total⟩ := inv
  rcases step_cases stepped with ⟨thread, x, -, queue, pushed, popped, misused⟩ | same | ⟨thread, x, takes⟩ | ⟨thread, rfl, empty, -⟩
  · refine ⟨misused.trans read, ?_⟩
    rw [queue, pushed, popped, ← List.append_assoc, total]
  · refine ⟨same.misused.trans read, ?_⟩
    rw [same.queue, same.pushed, same.popped, total]
  · refine ⟨takes.misused.trans read, ?_⟩
    rw [takes.pushed, takes.popped, ← total, takes.queue, List.map_append, List.append_assoc]
    rfl
  · exact absurd empty ready

theorem misused_stays (bad : s.misused = true) (stepped : step s a = some t) : t.misused = true := by
  rcases step_cases stepped with ⟨thread, x, -, -, -, -, misused⟩ | same | ⟨thread, x, takes⟩ | ⟨thread, -, -, misused⟩
  · exact misused.trans bad
  · exact same.misused.trans bad
  · exact takes.misused.trans bad
  · exact misused

theorem misused_of_not_ready (stepped : step s a = some t) (bad : ¬ Ready s a) : t.misused = true := by
  cases a with
  | wake thread =>
    have empty : s.queue = [] := not_not.mp bad
    rw [step] at stepped
    split at stepped
    case h_1 =>
      cases Option.some_inj.mp stepped
      simp [Shared.take, Shared.put, empty]
    case h_2 => contradiction
  | push | popNoWait | popWait | popTimedWait | timeout => exact absurd trivial bad

end

/-! ### Every run -/

/-- Whatever the threads do and in which order, the items are delivered in order and no empty
    queue is read exactly when every consumer that is woken finds the queue non-empty. -/
theorem delivers_iff (acts : List (Act T)) (s : Shared T) (run : runs step start acts = some s) :
    Delivered s ↔ Every step Ready start acts := by
  constructor
  · intro delivered
    refine every_of_runs (H := fun s => s.misused = true) (fun _ _ _ inv ready stepped => Inv.step inv ready stepped)
      (fun _ _ _ => misused_stays) (fun _ _ _ _ => misused_of_not_ready) inv_start run ?_
    simp [delivered.read]
  · intro every
    exact Inv.delivered (runs_every (fun _ _ _ inv ready stepped => inv.step ready stepped) inv_start every run)

instance (s : Shared T) : ∀ a, Decidable (Ready s a)
  | .wake _ => inferInstanceAs (Decidable (¬ s.queue = []))
  | .push _ _ | .popNoWait _ | .popWait _ | .popTimedWait _ | .timeout _ => isTrue trivial

/-- A consumer waits, an item comes and wakes it. -/
def handed : List (Act ℕ) := [.popWait 1, .push 0 5, .wake 1, .popNoWait 2]

theorem delivers_iff_handed : ∃ s, runs step start handed = some s ∧ Delivered s :=
  ⟨_, rfl, (delivers_iff handed _ rfl).mpr (by decide)⟩

/-- A consumer waits, an item comes, another consumer takes it before the first one wakes. -/
theorem not_delivers : ¬ ∀ (acts : List (Act ℕ)) (s : Shared ℕ), runs step start acts = some s → Delivered s := by
  intro delivers
  have delivered := delivers [.popWait 1, .push 0 5, .popNoWait 2, .wake 1] _ rfl
  exact absurd delivered.read (by decide)

end Tortuga.ThreadedQueue
