import Tortuga.StateRuns

/-!
What is left of a machine when the next state of a transition cannot be made (`state.py`).
-/
namespace Tortuga.FailedTransitions
open Tortuga.Raising Tortuga.Machines Tortuga.StateMachine Tortuga.StateRuns

/-! ### Making a state -/

section
variable {V : Type} {config : String → Option V}

/-- A field can be read unless it is required and missing. -/
theorem readField_fails {field : String × Default V} :
    (∃ e, readField config field = .error e) ↔ config field.1 = none ∧ field.2 = .required := by
  obtain ⟨name, default⟩ := field
  rw [readField]
  cases found : config name with
  | some v => simp
  | none => cases default <;> simp

/-- The error names the field. -/
theorem readField_error {field : String × Default V} {e : Error} (fails : readField config field = .error e) :
    e = .keyError ("No config value for required field '" ++ field.1 ++ "'") := by
  rw [readField] at fails
  split at fails
  · cases fails
  · cases fails
    rfl
  · cases fails

/-- A state cannot be set up exactly when a required field has no value, or a subsystem has the
    name of the configuration. -/
theorem stateInit_fails {subsystems : List String} {attrs : List (String × Default V)} :
    (∃ e, stateInit config subsystems attrs = .error e) ↔
      "config" ∈ subsystems ∨ ∃ field ∈ attrs, config field.1 = none ∧ field.2 = .required := by
  rw [stateInit]
  by_cases named : "config" ∈ subsystems
  · simp [named]
  · rw [if_neg named]
    induction attrs with
    | nil => simp [named, pure, Except.pure]
    | cons field rest ih =>
      rw [List.mapM_cons]
      cases read : readField config field with
      | error e =>
        have missing := readField_fails.mp ⟨e, read⟩
        exact ⟨fun _ => .inr ⟨field, List.mem_cons_self, missing⟩, fun _ => ⟨e, rfl⟩⟩
      | ok v =>
        have there : ¬ (config field.1 = none ∧ field.2 = .required) := fun missing => by
          obtain ⟨e, fails⟩ := readField_fails.mpr missing
          rw [read] at fails
          cases fails
        have skip : (∃ e, (do let b ← Except.ok v; let bs ← rest.mapM (readField config); pure (b :: bs)) = Except.error e) ↔
            ∃ e : Error, rest.mapM (readField config) = .error e := by
          cases rest.mapM (readField config) with
          | error e => simp [bind, Except.bind]
          | ok bs => simp [bind, Except.bind, pure, Except.pure]
        rw [skip, ih]
        simp [named, there]

/-- A state cannot be made exactly for want of a required field, for the name of a subsystem, or
    because its class raises. -/
theorem construct_fails {S E : Type} {D : Description S E V} {s : S} :
    (∃ e, D.construct s = .error e) ↔
      "config" ∈ D.subsystems ∨ (∃ field ∈ D.getattr s, D.config s field.1 = none ∧ field.2 = .required) ∨ (D.init s).isSome := by
  rw [Description.construct]
  by_cases named : "config" ∈ D.subsystems
  · simp [named]
  · have fails := @stateInit_fails V (D.config s) D.subsystems (D.getattr s)
    rw [if_neg named]
    cases made : stateInit (D.config s) D.subsystems (D.getattr s) with
    | error e =>
      rw [made] at fails
      obtain named' | missing := fails.mp ⟨e, rfl⟩
      · exact absurd named' named
      · simp [missing]
    | ok fields =>
      rw [made] at fails
      have complete : ¬ ∃ field ∈ D.getattr s, D.config s field.1 = none ∧ field.2 = .required := by
        intro missing
        obtain ⟨e, raised⟩ := fails.mpr (.inr missing)
        cases raised
      cases D.init s with
      | none => simp [named, complete]
      | some e => simp

end

/-! ### The transition -/

section
variable {S E V : Type} [DecidableEq S] [DecidableEq E]

/-- The machine is where it was, with the subscriptions and the branches it had. -/
structure Same (t u : World S E) (id : ℕ) : Prop where
  current : (u.machines id).current = (t.machines id).current
  connections : (u.machines id).connections = (t.machines id).connections
  branches : (u.machines id).branches = (t.machines id).branches
  branched : ∀ p ∈ (t.machines id).branches, u.machines p.2 = t.machines p.2

/-- From `u` on, with the target let be, the state of the target is to be made. -/
inductive Reached (D : Description S E V) (depth id : ℕ) (s : S) (u : World S E) : Target S → Prop where
  | state {q : S} {v : World S E} (other : q ≠ s) (exits : exitState (run D depth) id D u = .ok () v) : Reached D depth id s u (.state q)
  | branch {q : S} (new : q ∉ (u.machines id).branches.map Prod.fst) (deep : 0 < depth) : Reached D depth id s u (.branch q)

/-- The event is taken in the state `s`, its function lets it be and leaves the world `u`, and
    then the state of the target is to be made and cannot be. -/
structure Failing (D : Description S E V) (depth : ℕ) (t : World S E) (id : ℕ) (event : Event E)
    (s : S) (target : Target S) (u : World S E) : Prop where
  known : id < t.count
  started : (t.machines id).started = true
  current : (t.machines id).current = some s
  new : (t.machines id).previous ≠ some event.id
  entry : (D.transitions s).lookup event.type = some target
  func : callFunc D (run D depth) id s event.type t = .ok true u
  reached : Reached D depth id s u target
  fails : ∃ e, D.construct target.stateOf = .error e

variable {D : Description S E V} {depth id n : ℕ} {t u v : World S E} {event : Event E} {s q : S} {target : Target S}

omit [DecidableEq S] [DecidableEq E] in
theorem any_kept : Kept D (fun _ => True) (fun _ => True) :=
  ⟨trivial, fun _ _ _ _ => trivial, fun _ _ _ _ => trivial, fun _ _ => trivial, fun _ _ => trivial,
    fun _ _ _ _ _ _ _ _ _ _ => trivial, fun _ _ _ _ => trivial⟩

/-- What becomes of the world when the transition raises once the function has returned. -/
theorem Failing.ends (failing : Failing D depth t id event s target u) {e : Error} {w : World S E}
    (raised : follow D (run D depth) id s target event u = .error e w) :
    final (injectEvent D (run D depth) id event t) = w := by
  have read : machine id t = .ok (t.machines id) t := rfl
  have stopped : transition D (run D depth) id s event t = .error e w := by
    rw [transition, failing.entry]
    show (callFunc D _ id s event.type >>= _) t = _
    rw [bind_of_ok failing.func]
    exact raised
  have whole : injectEvent D (run D depth) id event t = .error e w := by
    rw [injectEvent, bind_of_ok read, if_neg failing.new, failing.started, if_neg Bool.noConfusion, failing.current]
    exact bind_of_error stopped
  rw [whole]
  rfl

omit [DecidableEq E] in
theorem enterState_fails {rec : ℕ → Cmd S → Io S E Unit} {e : Error} (fails : D.construct q = .error e) :
    enterState rec id D q t = .error e t := by
  rw [enterState, fails]
  rfl

/-- On the way to another state the old one has been exited already, and there is none. -/
theorem Failing.toState (failing : Failing D depth t id event s (.state q) u) (holds : Holds (fun _ => True) n u) :
    ((final (injectEvent D (run D depth) id event t)).machines id).current = none := by
  obtain ⟨e, fails⟩ := failing.fails
  cases failing.reached with
  | @state _ v other exits =>
    have raised : follow D (run D depth) id s (.state q) event u = .error e v := by
      rw [follow, if_neg other, bind_of_ok exits]
      exact enterState_fails fails
    rw [failing.ends raised]
    have safe : Safe (fun _ => True) (fun _ => True) (run D depth) := any_kept.run depth
    exact ((any_kept.exitState safe).returns u () v holds exits).2

/-- On the way to a branch there is only a new machine, not a branch yet. -/
theorem Failing.toBranch (failing : Failing D depth t id event s (.branch q) u) {i : ℕ} (old : i < u.count) :
    (final (injectEvent D (run D depth) id event t)).machines i = u.machines i := by
  obtain ⟨e, fails⟩ := failing.fails
  cases failing.reached with
  | branch new deep =>
    obtain ⟨depth, rfl⟩ := Nat.exists_eq_add_of_lt deep
    have other : i ≠ u.count := Nat.ne_of_lt old
    have raised : ∃ w, follow D (run D (0 + depth + 1)) id s (.branch q) event u = .error e w ∧
        w.machines i = u.machines i := by
      have read : machine id u = .ok (u.machines id) u := rfl
      have made : create u = .ok u.count { u.put u.count .fresh with count := u.count + 1 } := rfl
      refine ⟨World.put { u.put u.count .fresh with count := u.count + 1 } u.count
        { (u.put u.count .fresh).machines u.count with root := some q, started := true, complete := false }, ?_, ?_⟩
      · rw [follow, branchToState, bind_of_ok read, if_neg new, bind_of_ok made]
        apply bind_of_error
        exact enterState_fails fails
      · rw [put_other other]
        exact put_other other
    obtain ⟨w, raised, same⟩ := raised
    rw [failing.ends raised, same]

/-- A world that calls can lead to. -/
def Reachable (D : Description S E V) (depth n : ℕ) (t : World S E) : Prop :=
  ∃ acts : List (ℕ × Op S E), t = after (next D depth) (begin n) acts

theorem Reachable.holds (reachable : Reachable D depth n t) : Holds (fun _ => True) t.count t := by
  obtain ⟨acts, rfl⟩ := reachable
  have each : Each (next D depth) (fun _ _ => True) (begin n) acts := by
    generalize begin n = t
    induction acts generalizing t with
    | nil => trivial
    | cons act rest ih => exact ⟨trivial, ih _⟩
  have holds := any_kept.acts (fun _ _ _ _ => trivial) each
  exact ⟨Nat.le_refl _, holds.all, holds.branches⟩

/-- The machine stays where it was just when the target is a branch and the function of the
    transition has left everything there. -/
theorem failed_transition (D : Description S E V) (depth n : ℕ) (t : World S E) (reachable : Reachable D depth n t)
    (id : ℕ) (event : Event E) (s : S) (target : Target S) (u : World S E)
    (failing : Failing D depth t id event s target u) :
    Same t (final (injectEvent D (run D depth) id event t)) id ↔ (∃ q, target = .branch q) ∧ Same t u id := by
  have func : Holds (fun _ => True) t.count u :=
    (any_kept.callFunc (any_kept.run depth) s event.type t.count).returns t true u reachable.holds failing.func
  cases target with
  | state q =>
    constructor
    · intro same
      have gone := failing.toState func
      rw [same.current, failing.current] at gone
      contradiction
    · rintro ⟨⟨q, other⟩, -⟩
      contradiction
  | branch q =>
    have here := failing.toBranch (Nat.lt_of_lt_of_le failing.known func.count)
    have there : ∀ p ∈ (t.machines id).branches,
        (final (injectEvent D (run D depth) id event t)).machines p.2 = u.machines p.2 :=
      fun p member => failing.toBranch (Nat.lt_of_lt_of_le (reachable.holds.branches id p member) func.count)
    constructor
    · rintro ⟨current, connections, branches, branched⟩
      rw [here] at current connections branches
      exact ⟨⟨q, rfl⟩, current, connections, branches, fun p member => (there p member).symm.trans (branched p member)⟩
    · rintro ⟨-, current, connections, branches, branched⟩
      rw [← here] at current connections branches
      exact ⟨current, connections, branches, fun p member => (there p member).trans (branched p member)⟩

end

/-- `false` leads to `true` by one event, and branches to it by another. `true` needs a field that is
    not in the configuration. -/
def needsField : Description Bool ℕ Unit where
  hub := true
  subsystems := ["eventHub", "queuedEventHub", "stateMachine"]
  config _ _ := none
  getattr s := if s then [("three", .required)] else []
  init _ := none
  transitions s := if s then [(2, .state true)] else [(0, .state true), (1, .branch true)]
  distinct s := by cases s <;> simp
  isFunction _ := false
  enter _ _ := []
  exit _ _ := []
  func _ _ := none

/-- The machine in its first state. -/
def waiting : World Bool ℕ := after (next needsField 2) (begin 1) [(0, .start (.state false))]

theorem failing_branch : Failing needsField 2 waiting 0 ⟨0, 1⟩ false (.branch true) waiting where
  known := by decide
  started := rfl
  current := rfl
  new := by decide
  entry := rfl
  func := rfl
  reached := .branch (by decide) (by decide)
  fails := ⟨_, rfl⟩

theorem failing_state : Failing needsField 2 waiting 0 ⟨0, 0⟩ false (.state true) waiting where
  known := by decide
  started := rfl
  current := rfl
  new := by decide
  entry := rfl
  func := rfl
  reached := .state (by decide) rfl
  fails := ⟨_, rfl⟩

theorem failed_transition_branch :
    Reachable needsField 2 1 waiting ∧ Failing needsField 2 waiting 0 ⟨0, 1⟩ false (.branch true) waiting ∧
      Same waiting (final (injectEvent needsField (run needsField 2) 0 ⟨0, 1⟩ waiting)) 0 :=
  have reachable : Reachable needsField 2 1 waiting := ⟨[(0, .start (.state false))], rfl⟩
  ⟨reachable, failing_branch,
    (failed_transition needsField 2 1 waiting reachable 0 ⟨0, 1⟩ false (.branch true) waiting failing_branch).mpr
      ⟨⟨true, rfl⟩, rfl, rfl, rfl, fun _ _ => rfl⟩⟩

/-- Without a value for the field the machine is left with no state. -/
theorem not_failed_transition :
    ¬ ∀ (t : World Bool ℕ) (id : ℕ) (event : Event ℕ) (s : Bool) (target : Target Bool) (u : World Bool ℕ),
      Reachable needsField 2 1 t → Failing needsField 2 t id event s target u →
        Same t (final (injectEvent needsField (run needsField 2) id event t)) id := by
  intro stays
  have same := stays waiting 0 ⟨0, 0⟩ false (.state true) waiting ⟨[(0, .start (.state false))], rfl⟩ failing_state
  have current := same.current
  revert current
  decide

/-- It is still started, and every later event raises. -/
example : injectEvent needsField (run needsField 2) 0 ⟨1, 1⟩ (final (injectEvent needsField (run needsField 2) 0 ⟨0, 0⟩ waiting)) =
    .error .attributeError (final (injectEvent needsField (run needsField 2) 0 ⟨0, 0⟩ waiting)) := rfl

end Tortuga.FailedTransitions
