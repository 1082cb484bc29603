import Tortuga.Machines
import Mathlib.Data.Int.Notation
import Mathlib.Logic.Function.Basic

/-!
`CountDownLatch`: threads wait on a condition for the count. Every `countDown` wakes all of
them, and a thread that wakes returns without another look at the count.
-/
namespace Tortuga.CountDownLatch
open Tortuga.Machines
set_option linter.unusedSimpArgs false

/-! ### The threads -/

/-- Where a thread is. After its wake-up it has to get `m_mutex` again before it returns `result`. -/
inductive Phase where
  | out
  | waits (timed : Bool)
  | woken (result : Bool)
  deriving DecidableEq, Repr

/-- `notify_all`, as a thread sees it. -/
def Phase.notify : Phase → Phase
  | .waits _ => .woken true
  | phase => phase

/-- `m_count`, and where the threads are. -/
structure Latch (Thread : Type) where
  count : ℤ
  phase : Thread → Phase

/-- What is done in one go. `timed` is set for the `await` with a timeout, and `wake` is a wake-up without a cause. -/
inductive Act (Thread : Type) where
  | await (thread : Thread) (timed : Bool)
  | countDown (thread : Thread)
  | wake (thread : Thread)
  | expire (thread : Thread)
  | resume (thread : Thread)
  deriving DecidableEq, Repr

/-- The constructor. -/
def new {Thread : Type} (count : ℤ) : Latch Thread := ⟨count, fun _ => .out⟩

section
variable {Thread : Type}

/-- `countDown`, up to its end. -/
def Latch.countDown (s : Latch Thread) : Latch Thread :=
  { count := if s.count > 0 then s.count - 1 else s.count, phase := fun thread => (s.phase thread).notify }

/-- What `await` returns with this action, when it does: true also for the one without a timeout. -/
def returns (s : Latch Thread) : Act Thread → Option Bool
  | .await thread _ => if s.phase thread = .out ∧ s.count = 0 then some true else none
  | .resume thread =>
    match s.phase thread with
    | .woken result => some result
    | .out | .waits _ => none
  | .countDown _ | .wake _ | .expire _ => none

variable [DecidableEq Thread]

def Latch.put (s : Latch Thread) (thread : Thread) (phase : Phase) : Latch Thread :=
  { s with phase := Function.update s.phase thread phase }

/-- Nothing looks at the count between the end of a wait and the return. -/
def step (s : Latch Thread) : Act Thread → Option (Latch Thread)
  | .await thread timed =>
    if s.phase thread = .out then some (if s.count = 0 then s else s.put thread (.waits timed)) else none
  | .countDown thread => if s.phase thread = .out then some s.countDown else none
  | .wake thread =>
    match s.phase thread with
    | .waits _ => some (s.put thread (.woken true))
    | .out | .woken _ => none
  | .expire thread =>
    match s.phase thread with
    | .waits true => some (s.put thread (.woken false))
    | .out | .waits false | .woken _ => none
  | .resume thread =>
    match s.phase thread with
    | .woken _ => some (s.put thread .out)
    | .out | .waits _ => none

/-! ### Where the count goes -/

variable {s t : Latch Thread} {a : Act Thread}

/-- What a possible step does. -/
theorem step_cases (stepped : step s a = some t) :
    (∃ thread timed, a = .await thread timed ∧ (t = s ∨ s.count ≠ 0 ∧ t = s.put thread (.waits timed))) ∨
    (∃ thread, a = .countDown thread ∧ t = s.countDown) ∨
    (∃ thread timed, a = .wake thread ∧ s.phase thread = .waits timed ∧ t = s.put thread (.woken true)) ∨
    (∃ thread, a = .expire thread ∧ t = s.put thread (.woken false)) ∨
    (∃ thread, a = .resume thread ∧ t = s.put thread .out) := by
  cases a with
  | await thread timed =>
    simp only [step] at stepped
    split at stepped
    case isTrue =>
      refine .inl ⟨thread, timed, rfl, ?_⟩
      cases Option.some_inj.mp stepped
      split
      case isTrue => exact .inl rfl
      case isFalse more => exact .inr ⟨more, rfl⟩
    case isFalse => contradiction
  | countDown thread =>
    simp only [step] at stepped
    split at stepped
    case isTrue => exact .inr (.inl ⟨thread, rfl, (Option.some_inj.mp stepped).symm⟩)
    case isFalse => contradiction
  | wake thread =>
    simp only [step] at stepped
    split at stepped <;> cases stepped
    case h_1 timed waits => exact .inr (.inr (.inl ⟨thread, timed, rfl, waits, rfl⟩))
  | expire thread =>
    simp only [step] at stepped
    split at stepped <;> cases stepped
    exact .inr (.inr (.inr (.inl ⟨thread, rfl, rfl⟩)))
  | resume thread =>
    simp only [step] at stepped
    split at stepped <;> cases stepped
    exact .inr (.inr (.inr (.inr ⟨thread, rfl, rfl⟩)))

/-- Only `countDown` changes the count. -/
theorem step_count (stepped : step s a = some t) :
    t.count = s.count ∨ 0 < s.count ∧ t.count = s.count - 1 := by
  rcases step_cases stepped with ⟨_, _, rfl, rfl | ⟨_, rfl⟩⟩ | ⟨_, rfl, rfl⟩ | ⟨_, _, rfl, _, rfl⟩ | ⟨_, rfl, rfl⟩ | ⟨_, rfl, rfl⟩
  case inr.inl =>
    simp only [Latch.countDown]
    split
    case isTrue positive => exact .inr ⟨positive, rfl⟩
    case isFalse => exact .inl rfl
  all_goals exact .inl rfl

theorem run_count {count : ℤ} {acts : List (Act Thread)} (run : runs step (new count) acts = some s) :
    0 ≤ s.count ↔ 0 ≤ count := by
  refine runs_invariant (I := fun _ s => 0 ≤ s.count ↔ 0 ≤ count) Iff.rfl (fun _ a t u _ same stepped => ?_) run
  rw [← same]
  rcases step_count stepped with kept | less <;> omega

/-! ### Who is told of a count of zero -/

/-- All that wait are told of a count of zero, and of nothing else: no wake-up without a cause, and no
    `countDown` that leaves more to count while a thread waits. -/
def Told (s : Latch Thread) : Act Thread → Prop
  | .countDown _ => ∀ thread timed, s.phase thread = .waits timed → s.count = 1
  | .wake _ => False
  | .await _ _ | .expire _ | .resume _ => True

/-- A thread waits for a count that is not zero, and has been told of zero once it is. -/
structure Inv (s : Latch Thread) : Prop where
  waits : ∀ thread timed, s.phase thread = .waits timed → s.count ≠ 0
  woken : ∀ thread, s.phase thread = .woken true → s.count = 0

omit [DecidableEq Thread] in
theorem inv_new (count : ℤ) : Inv (new count : Latch Thread) where
  waits _ _ at' := by cases at'
  woken _ at' := by cases at'

theorem Inv.put (inv : Inv s) {thread : Thread} {phase : Phase} (waits : ∀ timed, phase = .waits timed → s.count ≠ 0)
    (woken : phase = .woken true → s.count = 0) : Inv (s.put thread phase) := by
  refine ⟨fun u timed at' => ?_, fun u at' => ?_⟩
  · by_cases same : u = thread
    · subst same
      exact waits timed (by simpa [Latch.put] using at')
    · exact inv.waits u timed (by simpa [Latch.put, same] using at')
  · by_cases same : u = thread
    · subst same
      exact woken (by simpa [Latch.put] using at')
    · exact inv.woken u (by simpa [Latch.put, same] using at')

theorem notify_waits {phase : Phase} {timed : Bool} : phase.notify ≠ .waits timed := by
  intro at'
  cases phase <;> cases at'

theorem notify_woken {phase : Phase} (at' : phase.notify = .woken true) : phase = .woken true ∨ ∃ timed, phase = .waits timed := by
  cases phase with
  | out => cases at'
  | waits timed => exact .inr ⟨timed, rfl⟩
  | woken result => exact .inl at'

omit [DecidableEq Thread] in
theorem Inv.countDown (inv : Inv s) {thread : Thread} (told : Told s (.countDown thread)) : Inv s.countDown := by
  refine ⟨fun u timed at' => absurd at' notify_waits, fun u at' => ?_⟩
  simp only [Latch.countDown]
  rcases notify_woken at' with before | ⟨timed, before⟩
  · -- The count was zero already.
    have zero := inv.woken u before
    simp [zero]
  · have one := told u timed before
    simp [one]

theorem Inv.step (inv : Inv s) (told : Told s a) (stepped : step s a = some t) : Inv t := by
  rcases step_cases stepped with ⟨thread, timed, rfl, rfl | ⟨more, rfl⟩⟩ | ⟨thread, rfl, rfl⟩ | ⟨thread, timed, rfl, waits, rfl⟩ |
    ⟨thread, rfl, rfl⟩ | ⟨thread, rfl, rfl⟩
  · exact inv
  · exact inv.put (fun _ _ => more) (by simp)
  · exact inv.countDown told
  · exact told.elim
  · exact inv.put (by simp) (by simp)
  · exact inv.put (by simp) (by simp)

/-! ### Every run -/

/-- Here `await` returns at a count of zero only, whichever thread returns next. A wait that ends in time says so
    itself. -/
def AtZero (s : Latch Thread) : Prop := ∀ a, returns s a = some true → s.count = 0

omit [DecidableEq Thread] in
theorem Inv.atZero (inv : Inv s) : AtZero s := by
  intro a returned
  cases a with
  | await thread timed =>
    simp only [returns] at returned
    split at returned
    case isTrue now => exact now.2
    case isFalse => contradiction
  | resume thread =>
    simp only [returns] at returned
    split at returned
    case h_1 result at' =>
      cases Option.some_inj.mp returned
      exact inv.woken thread at'
    all_goals contradiction
  | countDown thread | wake thread | expire thread => cases returned

omit [DecidableEq Thread] in
theorem not_atZero (thread : Thread) (woken : s.phase thread = .woken true) (more : s.count ≠ 0) : ¬ AtZero s := by
  intro atZero
  exact more (atZero (.resume thread) (by simp [returns, woken]))

/-- After the first action that tells a thread of another count, the thread can return with that count. -/
theorem Inv.breaks (inv : Inv s) (stepped : CountDownLatch.step s a = some t) (untold : ¬ Told s a) : ¬ AtZero t := by
  rcases step_cases stepped with ⟨thread, timed, rfl, _⟩ | ⟨thread, rfl, rfl⟩ | ⟨thread, timed, rfl, waits, rfl⟩ |
    ⟨thread, rfl, _⟩ | ⟨thread, rfl, _⟩
  · exact absurd trivial untold
  · simp only [Told, not_forall] at untold
    obtain ⟨u, timed, waits, more⟩ := untold
    have before := inv.waits u timed waits
    refine not_atZero u ?_ ?_
    · simp [Latch.countDown, waits, Phase.notify]
    · simp only [Latch.countDown]
      split <;> omega
  · refine not_atZero thread ?_ (inv.waits thread timed waits)
    simp [Latch.put]
  · exact absurd trivial untold
  · exact absurd trivial untold

/-- From a count that is not negative the count never goes below zero. `await` returns only when the count is zero
    in exactly the runs that tell no waiting thread of another count. -/
theorem await_at_zero {count : ℤ} {acts : List (Act Thread)} (run : runs step (new count) acts = some s) :
    (0 ≤ s.count ↔ 0 ≤ count) ∧ (Every step Told (new count) acts ↔
      ∀ front back t, acts = front ++ back → runs step (new count) front = some t → AtZero t) := by
  refine ⟨run_count run, ?_, ?_⟩
  · rintro told front back t rfl before
    have inv : Inv t := runs_every (fun _ _ _ inv told stepped => Inv.step inv told stepped) (inv_new count)
      (every_front told) before
    exact inv.atZero
  · intro good
    exact every_of_good (fun _ _ _ inv told stepped => Inv.step inv told stepped)
      (fun _ _ _ inv stepped untold => inv.breaks stepped untold) (inv_new count) run good

end

/-- One thread waits for a count of one, which another counts down. -/
theorem await_at_zero_one : ∃ s : Latch Bool, runs step (new 1) [.await true false, .countDown false, .resume true] = some s ∧
    (0 ≤ s.count ↔ (0 : ℤ) ≤ 1) := by
  have run : runs step (new 1 : Latch Bool) [.await true false, .countDown false, .resume true] = some _ := rfl
  exact ⟨_, run, (await_at_zero run).1⟩

/-- Of a count of two one is left when the waiting thread returns. -/
theorem await_at_one : ∃ s : Latch Bool, runs step (new 2) [.await true false, .countDown false] = some s ∧
    returns s (.resume true) = some true ∧ s.count = 1 := ⟨_, rfl, rfl, rfl⟩

end Tortuga.CountDownLatch
