import Mathlib.Data.List.Infix
import Mathlib.Data.List.Induction
import Mathlib.Logic.Function.Basic
import Tortuga.Precedence

/-!
A watcher that tells when a value has reached its target, while other threads set both. A call reads
the target twice: for the test, and once more for the message.
-/
namespace Tortuga.Rereads
open Tortuga.Precedence (split_concat)

/-- What is watched: when a value is at its target, what a target is set to, and in which order the test reads the two. -/
structure Watch (Kind : Type) (Value : Kind → Type) where
  isAt : (k : Kind) → Value k → Value k → Bool
  store : (k : Kind) → Value k → Value k
  desiredFirst : Kind → Bool

section
variable {Kind : Type} {Value : Kind → Type}

/-- Where a call is. -/
inductive Handler (Kind : Type) (Value : Kind → Type)
  | idle
  | called (k : Kind)
  | estimateRead (k : Kind) (estimate : Value k)
  | desiredRead (k : Kind) (desired : Value k)
  | arrived (k : Kind)

/-- What the calls have found: a message has its target, and with it stand the values that there were during the call. -/
inductive Entry (Kind : Type) (Value : Kind → Type)
  | arrival (k : Kind) (desired : Value k) (estimates : List (Value k))
  | already (k : Kind)
  | away (k : Kind)

/-- `seen` has the values since the last call began. -/
structure State (Kind : Type) (Value : Kind → Type) where
  desired : (k : Kind) → Value k
  estimated : (k : Kind) → Value k
  seen : (k : Kind) → List (Value k)
  reached : Kind → Bool
  handler : Handler Kind Value
  log : List (Entry Kind Value)

/-- A target is set, a value is set, a call begins, or the call that runs takes a step. -/
inductive Turn (Kind : Type) (Value : Kind → Type)
  | desire (k : Kind) (v : Value k)
  | estimate (k : Kind) (v : Value k)
  | call (k : Kind)
  | step

variable [DecidableEq Kind] (D : Watch Kind Value)

/-- The test, and what a call does behind it. -/
def State.test (s : State Kind Value) (k : Kind) (estimate desired : Value k) : State Kind Value :=
  if D.isAt k estimate desired then
    if s.reached k then
      { s with handler := .idle, log := s.log ++ [.already k] }
    else
      { s with reached := Function.update s.reached k true, handler := .arrived k }
  else
    { s with reached := Function.update s.reached k false, handler := .idle, log := s.log ++ [.away k] }

/-- The next step of the call that runs. -/
def State.step (s : State Kind Value) : State Kind Value :=
  match s.handler with
  | .idle => s
  | .called k =>
    if D.desiredFirst k then { s with handler := .desiredRead k (s.desired k) } else { s with handler := .estimateRead k (s.estimated k) }
  | .estimateRead k estimate => s.test D k estimate (s.desired k)
  | .desiredRead k desired => s.test D k (s.estimated k) desired
  | .arrived k => { s with handler := .idle, log := s.log ++ [.arrival k (s.desired k) (s.seen k)] }

/-- A turn. A call waits for the one that runs, by a lock which those who set targets and values do not take. -/
def next (s : State Kind Value) : Turn Kind Value → State Kind Value
  | .desire k v => { s with desired := Function.update s.desired k (D.store k v) }
  | .estimate k v => { s with estimated := Function.update s.estimated k v, seen := Function.update s.seen k (v :: s.seen k) }
  | .call k =>
    match s.handler with
    | .idle => { s with seen := fun i => [s.estimated i], handler := .called k }
    | _ => s
  | .step => s.step D

/-- Before any call. -/
def start (desired estimated : (k : Kind) → Value k) : State Kind Value :=
  ⟨desired, estimated, fun k => [estimated k], fun _ => false, .idle, []⟩

def run (s : State Kind Value) (turns : List (Turn Kind Value)) : State Kind Value := turns.foldl (next D) s

variable {D} {s : State Kind Value} {turn : Turn Kind Value} {turns : List (Turn Kind Value)} {k : Kind} {v : Value k}

theorem run_snoc (s : State Kind Value) (turns : List (Turn Kind Value)) (turn : Turn Kind Value) :
    run D s (turns ++ [turn]) = next D (run D s turns) turn := by
  rw [run, List.foldl_append]
  rfl

theorem test_cases (D : Watch Kind Value) (s : State Kind Value) (k : Kind) (e d : Value k) :
    (s.test D k e d = { s with reached := Function.update s.reached k false, handler := .idle, log := s.log ++ [.away k] }) ∨
    (s.test D k e d = { s with handler := .idle, log := s.log ++ [.already k] }) ∨
    (D.isAt k e d = true ∧ s.reached k = false ∧
      s.test D k e d = { s with reached := Function.update s.reached k true, handler := .arrived k }) := by
  rw [State.test]
  split_ifs with near before
  · exact .inr (.inl rfl)
  · exact .inr (.inr ⟨near, Bool.eq_false_iff.mpr before, rfl⟩)
  · exact .inl rfl

/-- What a turn does: the call sends its message, tests, reads the first of the two, or begins, or it stays where it is. -/
theorem next_cases (D : Watch Kind Value) (s : State Kind Value) (turn : Turn Kind Value) :
    (∃ k, turn = .step ∧ s.handler = .arrived k ∧
      next D s turn = { s with handler := .idle, log := s.log ++ [.arrival k (s.desired k) (s.seen k)] }) ∨
    (∃ k e d, (s.handler = .estimateRead k e ∧ d = s.desired k ∨ s.handler = .desiredRead k d ∧ e = s.estimated k) ∧
      turn = .step ∧ next D s turn = s.test D k e d) ∨
    (∃ k, next D s turn = { s with handler := .estimateRead k (s.estimated k) } ∨
      next D s turn = { s with handler := .desiredRead k (s.desired k) }) ∨
    (∃ k, next D s turn = { s with seen := fun i => [s.estimated i], handler := .called k }) ∨
    ((next D s turn).reached = s.reached ∧ (next D s turn).log = s.log ∧ (next D s turn).handler = s.handler ∧
      ∀ k e, e ∈ s.seen k → e ∈ (next D s turn).seen k) := by
  cases turn with
  | desire k v => exact .inr (.inr (.inr (.inr ⟨rfl, rfl, rfl, fun _ _ member => member⟩)))
  | estimate k v =>
    refine .inr (.inr (.inr (.inr ⟨rfl, rfl, rfl, fun i e member => ?_⟩)))
    by_cases own : i = k
    · subst own
      simp [next, member]
    · simpa [next, own] using member
  | call k =>
    rw [next]
    split
    · exact .inr (.inr (.inr (.inl ⟨k, rfl⟩)))
    · exact .inr (.inr (.inr (.inr ⟨rfl, rfl, rfl, fun _ _ member => member⟩)))
  | step =>
    rw [next, State.step]
    cases phase : s.handler with
    | idle => exact .inr (.inr (.inr (.inr ⟨rfl, rfl, phase, fun _ _ member => member⟩)))
    | called k =>
      refine .inr (.inr (.inl ⟨k, ?_⟩))
      dsimp only
      split_ifs
      · exact .inr rfl
      · exact .inl rfl
    | estimateRead k e => exact .inr (.inl ⟨k, e, s.desired k, .inl ⟨rfl, rfl⟩, rfl, rfl⟩)
    | desiredRead k d => exact .inr (.inl ⟨k, s.estimated k, d, .inr ⟨rfl, rfl⟩, rfl, rfl⟩)
    | arrived k => exact .inl ⟨k, rfl, rfl, rfl⟩

end

/-! ### Between two messages -/

section
variable {Kind : Type} {Value : Kind → Type} {log : List (Entry Kind Value)} {entry x : Entry Kind Value} {k : Kind}

/-- Behind each message of the kind a call has found the value away. -/
def Left (k : Kind) (log : List (Entry Kind Value)) : Prop := ∀ before d e after, log = before ++ .arrival k d e :: after → .away k ∈ after

/-- Between two messages of a kind a call has found the value away. -/
def Separated (log : List (Entry Kind Value)) : Prop :=
  ∀ before k d e between d' e' after, log = before ++ .arrival k d e :: (between ++ .arrival k d' e' :: after) → .away k ∈ between

theorem left_nil : Left k ([] : List (Entry Kind Value)) := by
  intro before d e after same
  exact absurd same.symm (by simp)

theorem separated_nil : Separated ([] : List (Entry Kind Value)) := by
  intro before k d e between d' e' after same
  exact absurd same.symm (by simp)

theorem Left.snoc (left : Left k log) (other : ∀ d e, entry ≠ .arrival k d e) : Left k (log ++ [entry]) := by
  intro before d e after same
  rcases split_concat.mp same with ⟨-, last, -⟩ | ⟨after', rfl, rest⟩
  · exact absurd last.symm (other d e)
  · exact List.mem_append_left _ (left before d e after' rest)

theorem left_away (k : Kind) (log : List (Entry Kind Value)) : Left k (log ++ [.away k]) := by
  intro before d e after same
  rcases split_concat.mp same with ⟨-, last, -⟩ | ⟨after', rfl, -⟩
  · cases last
  · exact List.mem_append_right _ List.mem_cons_self

theorem Separated.snoc (separated : Separated log) (left : ∀ k d e, entry = .arrival k d e → Left k log) : Separated (log ++ [entry]) := by
  intro before k d e between d' e' after same
  have regroup : log ++ [entry] = (before ++ .arrival k d e :: between) ++ .arrival k d' e' :: after := by
    rw [same]
    simp
  rcases split_concat.mp regroup with ⟨rest, last, -⟩ | ⟨after', rfl, rest⟩
  · exact left k d' e' last.symm before d e between rest.symm
  · exact separated before k d e between d' e' after' (by simpa using rest)

variable [DecidableEq Kind] {D : Watch Kind Value} {s : State Kind Value}

/-- A message is sent only after the value has been away, which the flag remembers. -/
structure Flagged (s : State Kind Value) : Prop where
  separated : Separated s.log
  off : ∀ k, s.reached k = false → Left k s.log
  arrived : ∀ k, s.handler = .arrived k → Left k s.log ∧ s.reached k = true

theorem Flagged.test (flagged : Flagged s) (k : Kind) (e d : Value k) : Flagged (s.test D k e d) := by
  obtain ⟨separated, off, -⟩ := flagged
  rcases test_cases D s k e d with same | same | ⟨-, before, same⟩
  · -- away: behind all messages of the kind there is an entry now
    rw [same]
    refine ⟨separated.snoc nofun, fun i still => ?_, nofun⟩
    by_cases own : i = k
    · subst own
      exact left_away i s.log
    · simp only [Function.update_of_ne own] at still
      exact (off i still).snoc nofun
  · rw [same]
    exact ⟨separated.snoc nofun, fun i still => (off i still).snoc nofun, nofun⟩
  · rw [same]
    refine ⟨separated, fun i still => ?_, fun i arriving => ?_⟩
    · by_cases own : i = k
      · subst own
        exact off i before
      · simp only [Function.update_of_ne own] at still
        exact off i still
    · cases arriving
      exact ⟨off k before, Function.update_self ..⟩

theorem Flagged.next (flagged : Flagged s) (turn : Turn Kind Value) : Flagged (next D s turn) := by
  rcases next_cases D s turn with ⟨k, -, phase, same⟩ | ⟨k, e, d, -, -, same⟩ | ⟨k, same | same⟩ | ⟨k, same⟩ | ⟨reached, log, phase, -⟩
  · -- a message: the flag of its kind is set, and the call is over
    rw [same]
    obtain ⟨separated, off, arrived⟩ := flagged
    obtain ⟨left, on⟩ := arrived k phase
    refine ⟨separated.snoc fun i d e message => ?_, fun i still => (off i still).snoc fun d e message => ?_, nofun⟩
    · cases message
      exact left
    · cases message
      exact Bool.noConfusion (on.symm.trans still)
  · rw [same]
    exact flagged.test k e d
  · rw [same]
    exact ⟨flagged.separated, flagged.off, nofun⟩
  · rw [same]
    exact ⟨flagged.separated, flagged.off, nofun⟩
  · rw [same]
    exact ⟨flagged.separated, flagged.off, nofun⟩
  · refine ⟨?_, fun i still => ?_, fun i arriving => ?_⟩
    · rw [log]
      exact flagged.separated
    · rw [reached] at still
      rw [log]
      exact flagged.off i still
    · rw [log, reached]
      exact flagged.arrived i (phase.symm.trans arriving)

theorem flagged_run (desired estimated : (k : Kind) → Value k) (turns : List (Turn Kind Value)) :
    Flagged (run D (start desired estimated) turns) := by
  induction turns using List.reverseRecOn with
  | nil =>
    exact ⟨separated_nil, fun _ _ => left_nil, nofun⟩
  | append_singleton turns turn ih =>
    rw [run_snoc]
    exact ih.next turn

end

/-! ### True messages -/

section
variable {Kind : Type} {Value : Kind → Type} {D : Watch Kind Value}

/-- Each message has a target that the value was at during the call. -/
def Truthful (D : Watch Kind Value) (log : List (Entry Kind Value)) : Prop :=
  ∀ k d seen, .arrival k d seen ∈ log → ∃ e ∈ seen, D.isAt k e d = true

theorem truthful_append {log others : List (Entry Kind Value)} :
    Truthful D (log ++ others) ↔ Truthful D log ∧ Truthful D others := by
  constructor
  · intro truthful
    exact ⟨fun k d seen member => truthful k d seen (List.mem_append_left _ member),
      fun k d seen member => truthful k d seen (List.mem_append_right _ member)⟩
  · intro ⟨first, second⟩ k d seen member
    rcases List.mem_append.mp member with before | behind
    · exact first k d seen before
    · exact second k d seen behind

variable [DecidableEq Kind] {s : State Kind Value} {turn : Turn Kind Value} {turns : List (Turn Kind Value)}
  {k : Kind} {v : Value k} {p q : Value k → Prop}

/-- A call has read the target of the kind, and may read it again. -/
def Between (k : Kind) (handler : Handler Kind Value) : Prop := handler = .arrived k ∨ ∃ d, handler = .desiredRead k d

/-- The target of the kind was set last behind the first read of the call that runs. -/
def Late (D : Watch Kind Value) (s : State Kind Value) (turns : List (Turn Kind Value)) (k : Kind) (v : Value k) : Prop :=
  ∃ earlier others, turns = earlier ++ .desire k v :: others ∧ (∀ w, .desire k w ∉ others) ∧
    ∀ part, part <+: others → Between k (run D s (earlier ++ .desire k v :: part)).handler

/-- A target that is set between the two reads of a call, and is there at the second one, is one that the value has been at during the call. -/
def Fitting (D : Watch Kind Value) (s : State Kind Value) (turns : List (Turn Kind Value)) : Prop :=
  ∀ earlier k v, earlier ++ [.step] <+: turns → (run D s earlier).handler = .arrived k → Late D s earlier k v →
    ∃ e ∈ (run D s earlier).seen k, D.isAt k e (D.store k v) = true

/-- A step sets neither targets nor values. -/
theorem step_kept (s : State Kind Value) :
    (s.step D).desired = s.desired ∧ (s.step D).estimated = s.estimated ∧ (s.step D).seen = s.seen := by
  have test (k : Kind) (e d : Value k) :
      (s.test D k e d).desired = s.desired ∧ (s.test D k e d).estimated = s.estimated ∧ (s.test D k e d).seen = s.seen := by
    rcases test_cases D s k e d with same | same | ⟨-, -, same⟩
    · simp [same]
    · simp [same]
    · simp [same]
  rw [State.step]
  cases s.handler with
  | idle => simp
  | called k =>
    dsimp only
    split_ifs
    · simp
    · simp
  | estimateRead k e => exact test k e _
  | desiredRead k d => exact test k _ d
  | arrived k => simp

/-- The target of a kind changes only where it is set. -/
theorem next_desired (other : ∀ w, turn ≠ .desire k w) : (next D s turn).desired k = s.desired k := by
  cases turn with
  | desire i w =>
    have ne : k ≠ i := by
      rintro rfl
      exact other w rfl
    exact Function.update_of_ne ne ..
  | estimate i w => rfl
  | call i =>
    rw [next]
    split <;> rfl
  | step => exact congrFun (step_kept s).1 k

/-- The value is among those of the call. -/
theorem estimated_seen (desired estimated : (k : Kind) → Value k) (turns : List (Turn Kind Value)) (k : Kind) :
    (run D (start desired estimated) turns).estimated k ∈ (run D (start desired estimated) turns).seen k := by
  induction turns using List.reverseRecOn with
  | nil => exact List.mem_singleton_self _
  | append_singleton turns turn ih =>
    rw [run_snoc]
    cases turn with
    | desire i w => exact ih
    | estimate i w =>
      by_cases own : k = i
      · subst own
        simp [next]
      · simpa [next, own] using ih
    | call i =>
      rw [next]
      split
      · exact List.mem_singleton_self _
      · exact ih
    | step =>
      obtain ⟨-, estimated, seen⟩ := step_kept (D := D) (run D (start desired estimated) turns)
      rw [next, estimated, seen]
      exact ih

theorem late_now (v : Value k) (between : Between k (run D s turns).handler) : Late D s (turns ++ [.desire k v]) k v := by
  refine ⟨turns, [], rfl, fun _ => List.not_mem_nil, fun part none => ?_⟩
  obtain rfl := List.prefix_nil.mp none
  rw [run_snoc]
  exact between

theorem Late.snoc (late : Late D s turns k v) (other : ∀ w, turn ≠ .desire k w)
    (between : Between k (run D s (turns ++ [turn])).handler) : Late D s (turns ++ [turn]) k v := by
  obtain ⟨earlier, others, rfl, none, since⟩ := late
  refine ⟨earlier, others ++ [turn], by simp, fun w member => ?_, fun part before => ?_⟩
  · rcases List.mem_append.mp member with before | now
    · exact none w before
    · exact other w (List.mem_singleton.mp now).symm
  · rcases List.prefix_concat_iff.mp before with rfl | before
    · simpa using between
    · exact since part before

/-- A target that was set late is still the target. -/
theorem Late.desired (late : Late D s turns k v) : (run D s turns).desired k = D.store k v := by
  obtain ⟨earlier, others, rfl, none, -⟩ := late
  induction others using List.reverseRecOn with
  | nil =>
    rw [run_snoc]
    exact Function.update_self ..
  | append_singleton others turn ih =>
    have rest : ∀ w, .desire k w ∉ others := fun w member => none w (List.mem_append_left _ member)
    have other : ∀ w, turn ≠ .desire k w := by
      rintro w rfl
      exact none w (List.mem_append_right _ List.mem_cons_self)
    have split : earlier ++ .desire k v :: (others ++ [turn]) = (earlier ++ .desire k v :: others) ++ [turn] := by
      simp
    rw [split, run_snoc, next_desired other]
    exact ih rest

/-- What a call knows of the target after its first read, unless the target was set since. -/
def Held (D : Watch Kind Value) (s : State Kind Value) (turns : List (Turn Kind Value)) (k : Kind) (p : Value k → Prop) : Prop :=
  p ((run D s turns).desired k) ∨ ∃ v, Late D s turns k v

theorem Held.next (held : Held D s turns k p) (before : Between k (run D s turns).handler)
    (after : Between k (run D s (turns ++ [turn])).handler) (weaker : ∀ d, p d → q d) : Held D s (turns ++ [turn]) k q := by
  by_cases set : ∃ w, turn = .desire k w
  · obtain ⟨w, rfl⟩ := set
    exact .inr ⟨w, late_now w before⟩
  · have other : ∀ w, turn ≠ .desire k w := fun w same => set ⟨w, same⟩
    rcases held with known | ⟨v, late⟩
    · refine .inl ?_
      rw [run_snoc, next_desired other]
      exact weaker _ known
    · exact .inr ⟨v, late.snoc other after⟩

/-- What a call has read is right, as far as the target was not set since. -/
structure Tracked (D : Watch Kind Value) (s : State Kind Value) (turns : List (Turn Kind Value)) : Prop where
  estimateRead : ∀ k e, (run D s turns).handler = .estimateRead k e → e ∈ (run D s turns).seen k
  desiredRead : ∀ k d, (run D s turns).handler = .desiredRead k d → Held D s turns k (fun desired => d = desired)
  arrived : ∀ k, (run D s turns).handler = .arrived k → Held D s turns k (fun desired => ∃ e ∈ (run D s turns).seen k, D.isAt k e desired = true)

/-- A call that has read nothing yet knows nothing. -/
theorem tracked_unread (unread : (run D s turns).handler = .idle ∨ ∃ k, (run D s turns).handler = .called k) : Tracked D s turns := by
  rcases unread with idle | ⟨k, called⟩
  · exact ⟨by simp [idle], by simp [idle], by simp [idle]⟩
  · exact ⟨by simp [called], by simp [called], by simp [called]⟩

/-- Behind the test. -/
theorem Tracked.test (tracked : Tracked D s turns) (known : (run D s turns).estimated k ∈ (run D s turns).seen k) {e d : Value k}
    (read : (run D s turns).handler = .estimateRead k e ∧ d = (run D s turns).desired k ∨
      (run D s turns).handler = .desiredRead k d ∧ e = (run D s turns).estimated k)
    (near : D.isAt k e d = true) (seen : (run D s (turns ++ [.step])).seen = (run D s turns).seen)
    (arriving : (run D s (turns ++ [.step])).handler = .arrived k) :
    Held D s (turns ++ [.step]) k (fun desired => ∃ e ∈ (run D s (turns ++ [.step])).seen k, D.isAt k e desired = true) := by
  rw [seen]
  rcases read with ⟨phase, rfl⟩ | ⟨phase, rfl⟩
  · refine .inl ⟨e, tracked.estimateRead k e phase, ?_⟩
    rw [run_snoc, next_desired nofun]
    exact near
  · refine (tracked.desiredRead k d phase).next (.inr ⟨d, phase⟩) (.inl arriving) fun desired same => ?_
    rw [← same]
    exact ⟨_, known, near⟩

theorem Tracked.next (tracked : Tracked D s turns) (known : ∀ k, (run D s turns).estimated k ∈ (run D s turns).seen k)
    (turn : Turn Kind Value) : Tracked D s (turns ++ [turn]) := by
  have after := run_snoc (D := D) s turns turn
  rcases next_cases D (run D s turns) turn with
    ⟨k, -, -, same⟩ | ⟨k, e, d, read, rfl, same⟩ | ⟨k, same | same⟩ | ⟨k, same⟩ | ⟨-, -, phase, grows⟩
  · exact tracked_unread (.inl (by rw [after, same]))
  · rcases test_cases D (run D s turns) k e d with test | test | ⟨near, -, test⟩
    · exact tracked_unread (.inl (by rw [after, same, test]))
    · exact tracked_unread (.inl (by rw [after, same, test]))
    · rw [same, test] at after
      refine ⟨by simp [after], by simp [after], fun i arriving => ?_⟩
      have own : (.arrived k : Handler Kind Value) = .arrived i := by
        rw [← arriving, after]
      cases own
      exact tracked.test (known k) read near (by rw [after]) arriving
  · -- the value is read first: it is the one there is
    rw [same] at after
    refine ⟨fun i e reading => ?_, by simp [after], by simp [after]⟩
    rw [after] at reading ⊢
    cases reading
    exact known k
  · -- the target is read first: it is the one there is
    rw [same] at after
    refine ⟨by simp [after], fun i d reading => .inl ?_, by simp [after]⟩
    rw [after] at reading ⊢
    cases reading
    rfl
  · exact tracked_unread (.inr ⟨k, by rw [after, same]⟩)
  · rw [← after] at phase grows
    refine ⟨fun i e reading => ?_, fun i d reading => ?_, fun i arriving => ?_⟩
    · exact grows i e (tracked.estimateRead i e (phase.symm.trans reading))
    · have before := phase.symm.trans reading
      exact (tracked.desiredRead i d before).next (.inr ⟨d, before⟩) (.inr ⟨d, reading⟩) fun _ same => same
    · have before := phase.symm.trans arriving
      refine (tracked.arrived i before).next (.inl before) (.inl arriving) fun desired found => ?_
      obtain ⟨e, member, near⟩ := found
      exact ⟨e, grows i e member, near⟩

theorem tracked_run (desired estimated : (k : Kind) → Value k) (turns : List (Turn Kind Value)) :
    Tracked D (start desired estimated) turns := by
  induction turns using List.reverseRecOn with
  | nil => exact tracked_unread (.inl rfl)
  | append_singleton turns turn ih => exact ih.next (estimated_seen desired estimated turns) turn

/-- What a turn adds to the messages: the call's own, or none. -/
theorem next_log (D : Watch Kind Value) (s : State Kind Value) (turn : Turn Kind Value) :
    (∃ k, turn = .step ∧ s.handler = .arrived k ∧ (next D s turn).log = s.log ++ [.arrival k (s.desired k) (s.seen k)]) ∨
    ((turn = .step → ∀ k, s.handler ≠ .arrived k) ∧
      ∃ others, (next D s turn).log = s.log ++ others ∧ ∀ k d seen, .arrival k d seen ∉ others) := by
  by_cases sends : turn = .step ∧ ∃ k, s.handler = .arrived k
  · obtain ⟨rfl, k, phase⟩ := sends
    exact .inl ⟨k, rfl, phase, by rw [next, State.step, phase]⟩
  · refine .inr ⟨fun now k phase => sends ⟨now, k, phase⟩, ?_⟩
    rcases next_cases D s turn with ⟨k, now, phase, -⟩ | ⟨k, e, d, -, -, same⟩ | ⟨k, same | same⟩ | ⟨k, same⟩ | ⟨-, same, -⟩
    · exact absurd ⟨now, k, phase⟩ sends
    · rcases test_cases D s k e d with test | test | ⟨-, -, test⟩
      · exact ⟨[.away k], by rw [same, test], by simp⟩
      · exact ⟨[.already k], by rw [same, test], by simp⟩
      · exact ⟨[], by simp [same, test], by simp⟩
    · exact ⟨[], by simp [same], by simp⟩
    · exact ⟨[], by simp [same], by simp⟩
    · exact ⟨[], by simp [same], by simp⟩
    · exact ⟨[], by simp [same], by simp⟩

theorem fitting_snoc : Fitting D s (turns ++ [turn]) ↔
    Fitting D s turns ∧ (turn = .step → ∀ k v, (run D s turns).handler = .arrived k → Late D s turns k v →
      ∃ e ∈ (run D s turns).seen k, D.isAt k e (D.store k v) = true) := by
  constructor
  · intro fitting
    refine ⟨fun earlier k v part => fitting earlier k v (part.trans (List.prefix_append ..)), ?_⟩
    rintro rfl k v
    exact fitting turns k v (List.prefix_refl _)
  · intro ⟨before, now⟩ earlier k v part
    rcases List.prefix_concat_iff.mp part with same | part
    · obtain ⟨rfl, one⟩ := List.append_inj' same rfl
      exact now (List.singleton_inj.mp one).symm k v
    · exact before earlier k v part

/-- All messages are true if and only if all targets that are set between two reads fit. -/
theorem truthful_run (desired estimated : (k : Kind) → Value k) (turns : List (Turn Kind Value)) :
    Truthful D (run D (start desired estimated) turns).log ↔ Fitting D (start desired estimated) turns := by
  induction turns using List.reverseRecOn with
  | nil =>
    refine iff_of_true (fun k d seen member => absurd member List.not_mem_nil) fun earlier k v part => ?_
    exact absurd (List.prefix_nil.mp part) (by simp)
  | append_singleton turns turn ih =>
    rw [fitting_snoc, run_snoc]
    rcases next_log D (run D (start desired estimated) turns) turn with
      ⟨k, rfl, phase, same⟩ | ⟨other, others, same, none⟩
    · rw [same, truthful_append, ih]
      refine and_congr_right fun _ => ⟨fun truthful _ i v arriving late => ?_, fun fits i d seen member => ?_⟩
      · rw [phase] at arriving
        cases arriving
        rw [← late.desired]
        exact truthful k _ _ List.mem_cons_self
      · cases List.mem_singleton.mp member
        rcases (tracked_run desired estimated turns).arrived k phase with found | ⟨v, late⟩
        · exact found
        · rw [late.desired]
          exact fits rfl k v phase late
    · rw [same, truthful_append, ih]
      exact and_congr_right fun _ => iff_of_true (fun k d seen member => absurd member (none k d seen))
        fun now k v phase => absurd phase (other now k)

end

end Tortuga.Rereads
