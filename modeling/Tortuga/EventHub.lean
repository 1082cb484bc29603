import Mathlib.Data.List.Basic
import Mathlib.Data.String.Basic
import Mathlib.Logic.Function.Basic
import Mathlib.Tactic.Cases
import Tortuga.Machines

/-!
Publishers, the hub that they are attached to (`EventPublisherBase.h`, `EventHub.cpp`) and
a queued hub on top of it (`QueuedEventHub.cpp`).

An event is an object that carries its type and its sender; publishing it writes both. A
publisher calls its own subscribers first and then hands the event to its hub, which
raises its three kinds of signals one after the other. Handlers may do whatever a caller
may do, so the calls that are still to be made are kept on a stack.
-/
namespace Tortuga.EventHub
open Tortuga.Machines
set_option linter.unusedSimpArgs false

abbrev EventType := String

/-- The hub and the queued hub on top of it. -/
inductive HubRef where
  | hub
  | queued
  deriving DecidableEq, Repr

/-- The publishers, by their addresses; the hubs are publishers themselves. -/
inductive Publisher where
  | plain (n : ℕ)
  | hub (h : HubRef)
  deriving DecidableEq, Repr

/-- The signals: of a publisher for a type, and of a hub for a type, for a type and a
    publisher, and for all events. -/
inductive Source where
  | own (p : ℕ) (type : EventType)
  | byType (h : HubRef) (type : EventType)
  | byTypePublisher (h : HubRef) (type : EventType) (p : Publisher)
  | all (h : HubRef)
  deriving DecidableEq, Repr

/-- The three kinds of signals of a hub. -/
inductive Kind where
  | byType
  | byTypePublisher
  | all
  deriving DecidableEq, Repr

/-- The signal of a kind that an event with these fields goes to. -/
def Kind.source (h : HubRef) (type : EventType) (sender : Publisher) : Kind → Source
  | .byType => .byType h type
  | .byTypePublisher => .byTypePublisher h type sender
  | .all => .all h

/-- What is connected to a signal: a handler, by the number of its connection, or the
    `queueEvent` of the queued hub. -/
inductive Slot where
  | handler (c : ℕ)
  | queueEvent
  deriving DecidableEq, Repr

/-- What the program and its handlers do. An event is given by the number of its object. -/
inductive Action where
  | publish (p : Publisher) (type : EventType) (event : ℕ)
  | subscribe (source : Source)
  | disconnect (c : ℕ)
  /-- `publishEvents`, or `waitAndPublishEvents` with `wait`. -/
  | publishEvents (wait : Bool)
  deriving DecidableEq, Repr

/-- What is still to be done. -/
inductive Work where
  | act (a : Action)
  /-- The virtual `publish(event)` of a hub. -/
  | publish (h : HubRef) (event : ℕ)
  /-- The own signal of a publisher. -/
  | raise (p : ℕ) (type : EventType) (event : ℕ)
  /-- A signal of a hub, for the fields that the event has when it is raised. -/
  | signal (h : HubRef) (kind : Kind) (event : ℕ)
  | call (slot : Slot) (event : ℕ)
  /-- The loop of `publishEvents`. -/
  | drain (wait : Bool)
  deriving DecidableEq, Repr

/-- The signals with their slots, the connections that are not disconnected, the fields of
    the events, what is still to be done with the next thing first, and the queue. Of the
    past: the calls of slots, the publications, and the events taken from the queue. -/
structure State where
  slots : Source → List Slot
  live : ℕ → Bool
  connections : ℕ
  type : ℕ → EventType
  sender : ℕ → Publisher
  stack : List Work
  queue : List ℕ
  calls : List (Slot × ℕ)
  published : List ℕ
  drained : List ℕ

/-- The queued hub is connected to the hub when it is built, before anybody else. -/
def initial : State where
  slots source := if source = .all .hub then [.queueEvent] else []
  live _ := false
  connections := 0
  type _ := ""
  sender _ := .plain 0
  stack := []
  queue := []
  calls := []
  published := []
  drained := []

/-- `EventHub::publish(event)`. -/
def hubWork (h : HubRef) (event : ℕ) : List Work :=
  [.signal h .byType event, .signal h .byTypePublisher event, .signal h .all event]

/-- The calls of the slots of a signal. -/
def slotCalls (source : Source) (event : ℕ) (s : State) : List Work := (s.slots source).map fun slot => .call slot event

/-- `push`, a call of `queueEvent`. -/
def queueEvent (event : ℕ) (s : State) : State :=
  { s with queue := s.queue ++ [event], calls := s.calls ++ [(.queueEvent, event)] }

section
variable (attached : ℕ → Option HubRef)

/-- What a publication has to do: the publisher calls its own subscribers and hands the event
    to its hub. `attached` is the hub of each publisher; a hub publishes to itself. -/
def publication (type : EventType) (event : ℕ) : Publisher → List Work
  | .plain n => .raise n type event :: (attached n).toList.map fun h => .publish h event
  | .hub h => [.publish h event]

/-- The beginning of an action. -/
def perform (s : State) : Action → State
  | .publish p type event =>
    { s with
      type := Function.update s.type event type
      sender := Function.update s.sender event p
      published := s.published ++ [event]
      stack := publication attached type event p ++ s.stack }
  | .subscribe source =>
    { s with
      slots := Function.update s.slots source (s.slots source ++ [.handler s.connections])
      live := Function.update s.live s.connections true
      connections := s.connections + 1 }
  | .disconnect c => { s with live := Function.update s.live c false }
  | .publishEvents wait => { s with stack := .drain wait :: s.stack }

/-- The call of a handler, which does `reaction`. -/
def callHandler (reaction : List Action) (c event : ℕ) (s : State) : State :=
  if s.live c then { s with calls := s.calls ++ [(.handler c, event)], stack := reaction.map .act ++ s.stack } else s

/-- A round of the loop of `publishEvents`; with `wait` it waits for a first event. -/
def drain (wait : Bool) (s : State) : State :=
  match s.queue with
  | [] => if wait then { s with stack := .drain wait :: s.stack } else s
  | event :: queue =>
    { s with
      queue := queue
      drained := s.drained ++ [event]
      stack := hubWork .queued event ++ .drain false :: s.stack }

/-- The next thing to do. -/
def exec (reaction : List Action) (s : State) : Work → State
  | .act a => perform attached s a
  | .publish .hub event => { s with stack := hubWork .hub event ++ s.stack }
  | .publish .queued event => queueEvent event s
  | .raise p type event => { s with stack := slotCalls (.own p type) event s ++ s.stack }
  | .signal h kind event =>
    { s with stack := slotCalls (kind.source h (s.type event) (s.sender event)) event s ++ s.stack }
  | .call (.handler c) event => callHandler reaction c event s
  | .call .queueEvent event => queueEvent event s
  | .drain wait => drain wait s

/-- A step: the next thing to do, or when nothing is left, the next actions of the program. -/
def step (s : State) (reaction : List Action) : State :=
  match s.stack with
  | [] => { s with stack := reaction.map .act }
  | work :: rest => exec attached reaction { s with stack := rest } work

/-- The state after steps in which the handlers and the program do `reactions`. -/
def run (reactions : List (List Action)) : State := after (step attached) initial reactions

end

/-! ### What a step can do -/

/-- The work that is only replaced by other work. -/
inductive Expands (s : State) : Work → List Work → Prop where
  | publishEvents (wait : Bool) : Expands s (.act (.publishEvents wait)) [.drain wait]
  | publish (event : ℕ) : Expands s (.publish .hub event) (hubWork .hub event)
  | raise (p : ℕ) (type : EventType) (event : ℕ) : Expands s (.raise p type event) (slotCalls (.own p type) event s)
  | signal (h : HubRef) (kind : Kind) (event : ℕ) :
      Expands s (.signal h kind event) (slotCalls (kind.source h (s.type event) (s.sender event)) event s)
  | dead (c event : ℕ) (gone : s.live c = false) : Expands s (.call (.handler c) event) []
  | waiting (empty : s.queue = []) : Expands s (.drain true) [.drain true]
  | done (empty : s.queue = []) : Expands s (.drain false) []

/-- What a step can do. -/
theorem step_cases {attached : ℕ → Option HubRef} {P : State → Prop} (s : State) (reaction : List Action)
    (idle : s.stack = [] → P { s with stack := reaction.map .act })
    (publish : ∀ p type event rest, s.stack = .act (.publish p type event) :: rest →
      P { s with
        type := Function.update s.type event type
        sender := Function.update s.sender event p
        published := s.published ++ [event]
        stack := publication attached type event p ++ rest })
    (subscribe : ∀ source rest, s.stack = .act (.subscribe source) :: rest →
      P { s with
        slots := Function.update s.slots source (s.slots source ++ [.handler s.connections])
        live := Function.update s.live s.connections true
        connections := s.connections + 1
        stack := rest })
    (disconnect : ∀ c rest, s.stack = .act (.disconnect c) :: rest →
      P { s with live := Function.update s.live c false, stack := rest })
    (expand : ∀ w new rest, s.stack = w :: rest → Expands s w new → P { s with stack := new ++ rest })
    (called : ∀ c event rest, s.stack = .call (.handler c) event :: rest → s.live c = true →
      P { s with calls := s.calls ++ [(.handler c, event)], stack := reaction.map .act ++ rest })
    (queued : ∀ w event rest, s.stack = w :: rest → w = .publish .queued event ∨ w = .call .queueEvent event →
      P { s with queue := s.queue ++ [event], calls := s.calls ++ [(.queueEvent, event)], stack := rest })
    (pop : ∀ wait event queue rest, s.stack = .drain wait :: rest → s.queue = event :: queue →
      P { s with
        queue := queue
        drained := s.drained ++ [event]
        stack := hubWork .queued event ++ .drain false :: rest }) : P (step attached s reaction) := by
  unfold step
  cases top : s.stack with
  | nil => exact idle top
  | cons w rest =>
    show P (exec attached reaction { s with stack := rest } w)
    cases w with
    | act a =>
      cases a with
      | publish p type event => exact publish p type event rest top
      | subscribe source => exact subscribe source rest top
      | disconnect c => exact disconnect c rest top
      | publishEvents wait => exact expand _ _ rest top (.publishEvents wait)
    | publish h event =>
      cases h with
      | hub => exact expand _ _ rest top (.publish event)
      | queued => exact queued _ event rest top (.inl rfl)
    | raise p type event => exact expand _ _ rest top (.raise p type event)
    | signal h kind event => exact expand _ _ rest top (.signal h kind event)
    | call slot event =>
      cases slot with
      | handler c =>
        show P (callHandler reaction c event { s with stack := rest })
        unfold callHandler
        cases live : s.live c with
        | false => exact expand _ _ rest top (.dead c event live)
        | true => exact called c event rest top live
      | queueEvent => exact queued _ event rest top (.inr rfl)
    | drain wait =>
      show P (drain wait { s with stack := rest })
      unfold drain
      cases waits : s.queue with
      | nil =>
        cases wait with
        | false =>
          have done := expand _ _ rest top (.done waits)
          rw [waits] at done
          exact done
        | true =>
          have again := expand _ _ rest top (.waiting waits)
          rw [waits] at again
          exact again
      | cons event queue => exact pop wait event queue rest top waits

/-! ### What is meant -/

/-- The events that have come to the queue, in their order. -/
def State.arrived (s : State) : List ℕ := s.calls.filterMap fun c => if c.1 = .queueEvent then some c.2 else none

/-- The calls of a handler, in their order. -/
def State.callsOf (s : State) (c : ℕ) : List ℕ := s.calls.filterMap fun k => if k.1 = .handler c then some k.2 else none

/-- The signals of a hub that an event goes to. -/
def hubSources (h : HubRef) (type : EventType) (sender : Publisher) : List Source :=
  [.byType h type, .byTypePublisher h type sender, .all h]

/-- The signals that a publication raises, apart from those of the queued hub. -/
def raisedBy (attached : ℕ → Option HubRef) (type : EventType) : Publisher → List Source
  | .plain n => .own n type :: if attached n = some .hub then hubSources .hub type (.plain n) else []
  | .hub .hub => hubSources .hub type (.hub .hub)
  | .hub .queued => []

/-- The publisher hands its events to the queued hub itself. -/
def Direct (attached : ℕ → Option HubRef) : Publisher → Prop
  | .plain n => attached n = some .queued
  | .hub h => h = .queued

instance directDecidable (attached : ℕ → Option HubRef) : ∀ p, Decidable (Direct attached p)
  | .plain n => inferInstanceAs (Decidable (attached n = some .queued))
  | .hub h => inferInstanceAs (Decidable (h = .queued))

/-- Something that is still to be done concerns the event. -/
def Work.Concerns (event : ℕ) : Work → Prop
  | .publish _ e => e = event
  | .raise _ _ e => e = event
  | .signal _ _ e => e = event
  | .call _ e => e = event
  | _ => False

end Tortuga.EventHub
