import Tortuga.Raising
import Tortuga.Machines
import Mathlib.Data.List.Basic
import Mathlib.Logic.Function.Basic

/-!
The state machine of the AI (`state.py`): a machine has a current state, subscribes to the
events of its transition table, and may branch to other states, each with a machine of its own.
-/
namespace Tortuga.StateMachine
open Tortuga.Raising Tortuga.Machines
set_option linter.unusedSimpArgs false

/-! ### States -/

/-- What Python raises. The last is what it does when the calls nest too deeply. -/
inductive Error where
  | exception (text : String)
  | valueError (text : String)
  | keyError (text : String)
  | typeError
  | attributeError
  | runtimeError
  deriving DecidableEq, Repr

/-- What `getattr` of a state says of a value. -/
inductive Default (V : Type) where
  | required
  | value (v : V)

/-- The value of a field: from the configuration, or its default. -/
def readField {V : Type} (config : String → Option V) (field : String × Default V) : Except Error (String × V) :=
  match config field.1, field.2 with
  | some v, _ => .ok ("_" ++ field.1, v)
  | none, .required => .error (.keyError ("No config value for required field '" ++ field.1 ++ "'"))
  | none, .value v => .ok ("_" ++ field.1, v)

/-- `State.__init__`: the attributes of the state besides its subsystems. -/
def stateInit {V : Type} (config : String → Option V) (subsystems : List String) (attrs : List (String × Default V)) :
    Except Error (List (String × V)) :=
  if "config" ∈ subsystems then .error (.valueError "Subsystem cannot be named 'config'")
  else attrs.mapM (readField config)

/-- Where a transition leads: to a state, or to a branch with it (`Branch`). -/
inductive Target (S : Type) where
  | state (s : S)
  | branch (s : S)
  deriving DecidableEq, Repr

def Target.stateOf {S : Type} : Target S → S
  | .state s => s
  | .branch s => s

/-- What a function of a state does to its machine: `start(Branch(s))`, `stopBranch(s)`, or it raises.
    What it publishes is queued and comes later, as an event of its own. -/
inductive Call (S : Type) where
  | branch (s : S)
  | stopBranch (s : S)
  | raise (e : Error)

/-- What a function of a state does, by the number of the call: the same function may do one
    thing now and another later. -/
abbrev Script (S : Type) := ℕ → List (Call S)

/-- The classes of the states, and what their machines are given: whether there is an event hub,
    the names of the subsystems, and the configuration of each class. -/
structure Description (S E V : Type) where
  hub : Bool
  subsystems : List String
  config : S → String → Option V
  getattr : S → List (String × Default V)
  /-- What the class's own `__init__` raises after that of `State`. -/
  init : S → Option Error
  transitions : S → List (E × Target S)
  distinct : ∀ s, ((transitions s).map Prod.fst).Nodup
  /-- Whether what stands for an event type is a method. -/
  isFunction : E → Bool
  enter : S → Script S
  exit : S → Script S
  /-- The function named like an event, and which of its calls let the transition be. -/
  func : S → E → Option (Script S × (ℕ → Bool))

/-- Making an instance of a class, `newStateClass(config, **subsystems)`. -/
def Description.construct {S E V : Type} (D : Description S E V) (s : S) : Except Error (List (String × V)) :=
  -- Python itself refuses a second `config`, before the check of `__init__`.
  if "config" ∈ D.subsystems then .error .typeError
  else match stateInit (D.config s) D.subsystems (D.getattr s) with
  | .error e => .error e
  | .ok fields => match D.init s with
    | some e => .error e
    | none => .ok fields

/-- The event types that a state has transitions for. -/
def Description.events {S E V : Type} (D : Description S E V) (s : S) : List E := (D.transitions s).map Prod.fst

/-! ### Machines -/

/-- An event that is injected. An event is equal to no other. -/
structure Event (E : Type) where
  id : ℕ
  type : E

/-- A state has become current, or has been left. -/
inductive Moment (S : Type) where
  | entered (s : S)
  | exited (s : S)
  deriving DecidableEq, Repr

/-- The fields of a `Machine`, its connections by their event types and its branches by the
    numbers of their machines. `log` is what has become of its states. -/
structure Machine (S E : Type) where
  root : Option S
  current : Option S
  started : Bool
  complete : Bool
  previous : Option ℕ
  connections : List E
  branches : List (S × ℕ)
  log : List (Moment S)

def Machine.fresh {S E : Type} : Machine S E := ⟨none, none, false, false, none, [], [], []⟩

/-- All machines there are, by number, and how often a function of a state has been called. -/
structure World (S E : Type) where
  machines : ℕ → Machine S E
  count : ℕ
  calls : ℕ

def World.put {S E : Type} (t : World S E) (id : ℕ) (m : Machine S E) : World S E :=
  { t with machines := Function.update t.machines id m }

abbrev Io (S E : Type) := EStateM Error (World S E)

/-- A command that a machine gives to one of its branches. -/
inductive Cmd (S : Type) where
  | start (s : S)
  | stop

section
variable {S E V : Type}

def machine (id : ℕ) : Io S E (Machine S E) := do return (← get).machines id

def update (id : ℕ) (f : Machine S E → Machine S E) : Io S E Unit :=
  modify fun t => t.put id (f (t.machines id))

/-- A new machine and its number. -/
def create : Io S E ℕ := do
  let t ← get
  modify fun t => { t.put t.count .fresh with count := t.count + 1 }
  return t.count

/-- The number of a call of a function. -/
def number : Io S E ℕ := do
  let t ← get
  modify fun t => { t with calls := t.calls + 1 }
  return t.calls

variable [DecidableEq S] (rec : ℕ → Cmd S → Io S E Unit) (id : ℕ)

/-- `_branchToState`. -/
def branchToState (nextState : S) (branchingEvent : Option ℕ) : Io S E Unit := do
  let m ← machine id
  if nextState ∈ m.branches.map Prod.fst then throw (.exception "Already branched to this state")
  else do
    let branched ← create
    rec branched (.start nextState)
    update branched fun b => { b with previous := branchingEvent }
    update id fun m => { m with branches := m.branches ++ [(nextState, branched)] }

def stopBranch (stateType : S) : Io S E Unit := do
  let m ← machine id
  match m.branches.lookup stateType with
  | none => throw (.keyError "")
  | some branch => do
    rec branch .stop
    update id fun m => { m with branches := m.branches.filter (fun p => p.1 ≠ stateType) }

/-- A function of a state runs. -/
def script : List (Call S) → Io S E Unit
  | [] => pure ()
  | .branch s :: rest => do
    branchToState rec id s none
    script rest
  | .stopBranch s :: rest => do
    stopBranch rec id s
    script rest
  | .raise e :: _ => throw e

variable (D : Description S E V)

/-- `_exitState`. -/
def exitState : Io S E Unit := do
  let m ← machine id
  match m.current with
  | none => throw .attributeError
  | some s => do
    let n ← number
    script rec id (D.exit s n)
    update id fun m =>
      { m with connections := [], current := none, log := m.log ++ m.current.toList.map .exited }

/-- The subscriptions to the events of a state. -/
def subscribe : List E → Io S E Unit
  | [] => pure ()
  | type :: rest =>
    if D.isFunction type then throw (.exception "Event type is actually a function")
    else do
      update id fun m => { m with connections := m.connections ++ [type] }
      subscribe rest

def subscribeAll (s : S) : Io S E Unit := if D.hub then subscribe id D (D.events s) else pure ()

/-- `_enterState`. A state with no way out is left at once. -/
def enterState (s : S) : Io S E Unit :=
  match D.construct s with
  | .error e => throw e
  | .ok _ => do
    subscribeAll id D s
    update id fun m => { m with current := some s, log := m.log ++ [.entered s] }
    let n ← number
    script rec id (D.enter s n)
    if D.transitions s = [] then do
      exitState rec id D
      update id fun m => { m with complete := true }
    else pure ()

/-- `for branch in self._branches.itervalues(): branch.stop()`. -/
def stopAll : List (S × ℕ) → Io S E Unit
  | [] => pure ()
  | (_, branch) :: rest => do
    rec branch .stop
    stopAll rest

/-- The current state is exited, when there is one. -/
def exitCurrent : Io S E Unit := do
  let m ← machine id
  if m.current.isSome then exitState rec id D else pure ()

/-- `start` with a state, and `stop`. -/
def perform : Cmd S → Io S E Unit
  | .start s => do
    update id fun m => { m with root := some s, started := true, complete := false }
    enterState rec id D s
  | .stop => do
    exitCurrent rec id D
    update id fun m =>
      { m with started := false, previous := none, root := none, current := none, complete := false }
    let m ← machine id
    stopAll rec m.branches
    update id fun m => { m with branches := [] }

end

section
variable {S E V : Type} [DecidableEq S] [DecidableEq E] (D : Description S E V)

/-- Commands with what is left of the depth to which calls may nest. -/
def run : ℕ → ℕ → Cmd S → Io S E Unit
  | 0, _, _ => throw .runtimeError
  | depth + 1, id, cmd => perform (run depth) id D cmd

variable (rec : ℕ → Cmd S → Io S E Unit) (id : ℕ)

/-- The function for the transition, and whether it lets the transition be. -/
def callFunc (s : S) (type : E) : Io S E Bool :=
  match D.func s type with
  | none => pure true
  | some (body, goes) => do
    let n ← number
    script rec id (body n)
    return goes n

/-- The steps of a transition from `s`, when its function lets it be. A branch or a loopback
    does not leave the state. -/
def follow (s : S) (next : Target S) (event : Event E) : Io S E Unit :=
  match next with
  | .branch nextState => branchToState rec id nextState (some event.id)
  | .state nextState => if nextState = s then pure () else do
    exitState rec id D
    enterState rec id D nextState

/-- What an event does in the state `s`. -/
def transition (s : S) (event : Event E) : Io S E Unit :=
  match (D.transitions s).lookup event.type with
  | none => pure ()
  | some next => do
    let goes ← callFunc D rec id s event.type
    if goes then follow D rec id s next event else pure ()

/-- `injectEvent`. -/
def injectEvent (event : Event E) : Io S E Unit := do
  let m ← machine id
  if m.previous = some event.id then pure ()
  else if m.started = false then throw (.exception "Machine must be started")
  else match m.current with
    | none => throw .attributeError
    | some s => do
      transition D rec id s event
      update id fun m => { m with previous := some event.id }

/-- The event goes to the branches too, as the tests do it. -/
def injectAll (event : Event E) : List (S × ℕ) → Io S E Unit
  | [] => pure ()
  | (_, branch) :: rest => do
    injectEvent D rec branch event
    injectAll event rest

/-- A call of a method of a machine from outside. -/
inductive Op (S E : Type) where
  | start (startState : Target S)
  | stop
  | stopBranch (stateType : S)
  | injectEvent (event : Event E) (sendToBranches : Bool)

def call (depth : ℕ) : Op S E → Io S E Unit
  | .start (.state s) => run D depth id (.start s)
  | .start (.branch s) => branchToState (run D depth) id s none
  | .stop => run D depth id .stop
  | .stopBranch s => stopBranch (run D depth) id s
  | .injectEvent event false => injectEvent D (run D depth) id event
  | .injectEvent event true => do
    injectEvent D (run D depth) id event
    let m ← machine id
    injectAll D (run D depth) event m.branches

/-- The world after a call on a machine, when control is back: by return or by an exception. -/
def next (depth : ℕ) (t : World S E) (act : ℕ × Op S E) : World S E :=
  if act.1 < t.count then final (call D act.1 depth act.2 t) else t

/-- `n` machines that have not been started. -/
def begin (n : ℕ) : World S E := ⟨fun _ => .fresh, n, 0⟩

end

end Tortuga.StateMachine
