import Tortuga.Channels
import Tortuga.EventLogs
import Tortuga.EventRelays

/-!
Which events the hubs of other programs publish, for every order of the steps of the publisher, the hubs and the network. For each endpoint the
network is a channel of events.
-/
namespace Tortuga.RelayRuns
open Tortuga.Channels (Channel forall₂_snoc forall₂_eraseIdx forall₂_getElem?)
open Tortuga.EventLogs
open Tortuga.EventRelays
open Tortuga.LoggedEvents
open Tortuga.Machines
set_option linter.unusedSectionVars false

section
variable {A D F P I R S : Type} [DecidableEq A] [Zero D] {archive : Archive A D F P}
variable {s t : Network A D F P I R S} {a : A} {acts cacts : List (Act A D F P I R S)} {act : Act A D F P I R S}

/-- The event that the publisher sends to its endpoints. -/
def converted (archive : Archive A D F P) : Act A D F P I R S → Option (AnyEvent D F P I R S)
  | .handleEvent memory event => if (datagram archive memory event).isSome then some event else none
  | _ => none

/-- The datagram of an event is not too long, and its text is read as what has been written. -/
def Readable (archive : Archive A D F P) : Act A D F P I R S → Prop
  | .handleEvent memory event => ∀ message, datagram archive memory event = some message →
    message.length ≤ maxLength ∧ archive.read message = .ok (writeEvent archive.registry memory [] event).2
  | _ => True

/-- A datagram that is read as the event that has been written to it. -/
def Carries (archive : Archive A D F P) (event : AnyEvent D F P I R S) (message : List UInt8) : Prop :=
  message ≠ [] ∧ message.length ≤ maxLength ∧ ∃ data, archive.read message = .ok data ∧
    ∀ a memory, readEvent (archive.found a) memory data = some (loaded (archive.found a) memory event, [])

/-- An event as the hub at an endpoint gets it. -/
def Relayed (archive : Archive A D F P) (a : A) (event published : AnyEvent D F P I R S) : Prop :=
  ∃ memory, published = loaded (archive.found a) memory event

/-- How publishers are found does not matter for what is saved. -/
theorem save_found (archive : Archive A D F P) (a : A) (event : AnyEvent D F P I R S) :
    event.save (archive.found a) = event.save archive.registry := by
  cases event <;> rfl

theorem datagram_carries {memory : Memory D F R S} {event : AnyEvent D F P I R S} {message : List UInt8}
    (readable : Readable archive (.handleEvent memory event : Act A D F P I R S)) (made : datagram archive memory event = some message) :
    Carries archive event message := by
  obtain ⟨short, read⟩ := readable message made
  rw [datagram, writeEvent] at made
  rw [writeEvent] at read
  by_cases exported : ((event.clone memory).save archive.registry).1.exported = true
  · rw [if_pos exported] at made read
    obtain rfl := Option.some_inj.mp made
    refine ⟨List.append_ne_nil_of_right_ne_nil _ (List.cons_ne_nil _ _), short, _, read, fun a memory' => ?_⟩
    rw [List.nil_append, readEvent, ← save_found archive a]
    exact (congrArg (AnyEvent.load (archive.found a) memory' _) (List.append_nil _).symm).trans (load_save event [])
  · rw [if_neg exported] at made
    contradiction

/-- What the hub does with the datagram of an event. -/
theorem daemon_carries {a : A} {hub : NetworkHub D F P I R S} {memory : Memory D F R S} {event : AnyEvent D F P I R S} {message : List UInt8}
    (carries : Carries archive event message) :
    hub.daemon archive a memory message =
      { hub with waiting := hub.active, published := hub.published ++ [loaded (archive.found a) memory event] } := by
  obtain ⟨some, short, data, read, event⟩ := carries
  rw [NetworkHub.daemon, List.take_of_length_le short]
  rw [if_neg some, read]
  dsimp only
  rw [event]

/-! ### A channel to each endpoint -/

/-- A fault of the channel is one of the network. -/
def Backed (a : A) (acts : List (Act A D F P I R S)) : Channels.Act (AnyEvent D F P I R S) → Prop
  | .send _ => True
  | .arrive i => ∃ memory, .receive a i memory ∈ acts
  | .lose i => .lose a i ∈ acts
  | .duplicate i => .duplicate a i ∈ acts

/-- The network does for an endpoint what a channel does. -/
structure Mirrors (archive : Archive A D F P) (a : A) (acts : List (Act A D F P I R S)) (s : Network A D F P I R S)
    (faults : List (Channels.Act (AnyEvent D F P I R S))) (c : Channel (AnyEvent D F P I R S)) : Prop where
  run : runs Channels.step Channels.empty faults = some c
  backed : ∀ act ∈ faults, Backed a acts act
  sent : c.sent = s.sent a
  flight : List.Forall₂ (Carries archive) c.flight (s.flight a)
  published : List.Forall₂ (Relayed archive a) c.arrived (s.hub a).published
  fine : (s.hub a).failed = false

section
variable {faults : List (Channels.Act (AnyEvent D F P I R S))} {c d : Channel (AnyEvent D F P I R S)}

theorem Backed.later {fault : Channels.Act (AnyEvent D F P I R S)} (backed : Backed a acts fault) (act : Act A D F P I R S) :
    Backed a (acts ++ [act]) fault := by
  cases fault with
  | send event => trivial
  | arrive i =>
    obtain ⟨memory, among⟩ := backed
    exact ⟨memory, List.mem_append_left _ among⟩
  | lose i => exact List.mem_append_left _ backed
  | duplicate i => exact List.mem_append_left _ backed

/-- Nothing happens to the channel. -/
theorem Mirrors.same (mirrors : Mirrors archive a acts s faults c) (sent : t.sent a = s.sent a) (flight : t.flight a = s.flight a)
    (published : (t.hub a).published = (s.hub a).published) (failed : (t.hub a).failed = (s.hub a).failed) :
    Mirrors archive a (acts ++ [act]) t faults c := by
  refine ⟨mirrors.run, fun fault among => (mirrors.backed fault among).later act,
    mirrors.sent.trans sent.symm, ?_, ?_, failed.trans mirrors.fine⟩
  · rw [flight]
    exact mirrors.flight
  · rw [published]
    exact mirrors.published

/-- The channel does a step. -/
theorem Mirrors.next (mirrors : Mirrors archive a acts s faults c) {fault : Channels.Act (AnyEvent D F P I R S)}
    (stepped : Channels.step c fault = some d) (backed : Backed a (acts ++ [act]) fault) (sent : d.sent = t.sent a)
    (flight : List.Forall₂ (Carries archive) d.flight (t.flight a)) (published : List.Forall₂ (Relayed archive a) d.arrived (t.hub a).published)
    (fine : (t.hub a).failed = false) : Mirrors archive a (acts ++ [act]) t (faults ++ [fault]) d := by
  refine ⟨?_, fun other among => ?_, sent, flight, published, fine⟩
  · rw [runs_snoc, mirrors.run]
    exact stepped
  · rcases List.mem_append.mp among with before | new
    · exact (mirrors.backed other before).later act
    · rw [List.mem_singleton.mp new]
      exact backed

theorem Mirrors.handleEvent {memory : Memory D F R S} {event : AnyEvent D F P I R S} (mirrors : Mirrors archive a acts s faults c)
    (readable : Readable archive (.handleEvent memory event : Act A D F P I R S)) :
    ∃ faults c, Mirrors archive a (acts ++ [.handleEvent memory event]) (s.handleEvent archive memory event) faults c := by
  rw [Network.handleEvent]
  cases made : datagram archive memory event with
  | none => exact ⟨faults, c, mirrors.same rfl rfl rfl rfl⟩
  | some message =>
    by_cases registered : a ∈ s.endpoints
    · refine ⟨_, _, mirrors.next (show Channels.step c (.send event) = some _ from rfl) trivial ?_ ?_ mirrors.published mirrors.fine⟩
      · dsimp only
        rw [if_pos registered, mirrors.sent]
      · dsimp only
        rw [if_pos registered]
        exact forall₂_snoc mirrors.flight (datagram_carries readable made)
    · exact ⟨faults, c, mirrors.same (if_neg registered) (if_neg registered) rfl rfl⟩

/-- What does not concern the endpoint, or only whether its hub is there. -/
theorem Mirrors.setHub (mirrors : Mirrors archive a acts s faults c) (b : A) (hub : NetworkHub D F P I R S)
    (published : hub.published = (s.hub b).published) (failed : hub.failed = (s.hub b).failed) :
    ∃ faults c, Mirrors archive a (acts ++ [act]) (s.setHub b hub) faults c := by
  have same : ((s.setHub b hub).hub a).published = (s.hub a).published ∧ ((s.setHub b hub).hub a).failed = (s.hub a).failed := by
    by_cases here : a = b
    · subst here
      have new : (s.setHub a hub).hub a = hub := Function.update_self ..
      rw [new]
      exact ⟨published, failed⟩
    · have old : (s.setHub b hub).hub a = s.hub a := Function.update_of_ne here ..
      rw [old]
      exact ⟨rfl, rfl⟩
  exact ⟨faults, c, mirrors.same rfl rfl same.1 same.2⟩

theorem Mirrors.receive {b : A} {i : ℕ} {memory : Memory D F R S} {message : List UInt8} (mirrors : Mirrors archive a acts s faults c)
    (there : (s.flight b)[i]? = some message) :
    ∃ faults c, Mirrors archive a (acts ++ [.receive b i memory])
      ((s.setFlight b ((s.flight b).eraseIdx i)).setHub b ((s.hub b).daemon archive b memory message)) faults c := by
  by_cases here : a = b
  · subst here
    obtain ⟨event, among, carries⟩ := forall₂_getElem? mirrors.flight there
    let u := (s.setFlight a ((s.flight a).eraseIdx i)).setHub a ((s.hub a).daemon archive a memory message)
    have flight : u.flight a = (s.flight a).eraseIdx i := Function.update_self ..
    have hub : u.hub a = { s.hub a with
        waiting := (s.hub a).active, published := (s.hub a).published ++ [loaded (archive.found a) memory event] } :=
      (Function.update_self ..).trans (daemon_carries carries)
    refine ⟨_, _, mirrors.next (show Channels.step c (.arrive i) = _ from congrArg (Option.map _) among)
      ⟨memory, List.mem_append_right _ (List.mem_singleton_self _)⟩ mirrors.sent ?_ ?_ ?_⟩
    · rw [flight]
      exact forall₂_eraseIdx mirrors.flight i
    · rw [hub]
      exact forall₂_snoc mirrors.published ⟨memory, rfl⟩
    · rw [hub]
      exact mirrors.fine
  · have flight : Function.update s.flight b ((s.flight b).eraseIdx i) a = s.flight a := Function.update_of_ne here _ _
    have hub : Function.update s.hub b ((s.hub b).daemon archive b memory message) a = s.hub a := Function.update_of_ne here _ _
    exact ⟨faults, c, mirrors.same rfl flight (congrArg NetworkHub.published hub) (congrArg NetworkHub.failed hub)⟩

theorem Mirrors.lose {b : A} {i : ℕ} {message : List UInt8} (mirrors : Mirrors archive a acts s faults c)
    (there : (s.flight b)[i]? = some message) :
    ∃ faults c, Mirrors archive a (acts ++ [.lose b i]) (s.setFlight b ((s.flight b).eraseIdx i)) faults c := by
  by_cases here : a = b
  · subst here
    obtain ⟨event, among, -⟩ := forall₂_getElem? mirrors.flight there
    refine ⟨_, _, mirrors.next (show Channels.step c (.lose i) = _ from congrArg (Option.map _) among)
      (List.mem_append_right _ (List.mem_singleton_self _)) mirrors.sent ?_ mirrors.published mirrors.fine⟩
    have flight : (s.setFlight a ((s.flight a).eraseIdx i)).flight a = (s.flight a).eraseIdx i := Function.update_self ..
    rw [flight]
    exact forall₂_eraseIdx mirrors.flight i
  · exact ⟨faults, c, mirrors.same rfl (Function.update_of_ne here _ _) rfl rfl⟩

theorem Mirrors.duplicate {b : A} {i : ℕ} {message : List UInt8} (mirrors : Mirrors archive a acts s faults c)
    (there : (s.flight b)[i]? = some message) :
    ∃ faults c, Mirrors archive a (acts ++ [.duplicate b i]) (s.setFlight b (s.flight b ++ [message])) faults c := by
  by_cases here : a = b
  · subst here
    obtain ⟨event, among, carries⟩ := forall₂_getElem? mirrors.flight there
    refine ⟨_, _, mirrors.next (show Channels.step c (.duplicate i) = _ from congrArg (Option.map _) among)
      (List.mem_append_right _ (List.mem_singleton_self _)) mirrors.sent ?_ mirrors.published mirrors.fine⟩
    have flight : (s.setFlight a (s.flight a ++ [message])).flight a = s.flight a ++ [message] := Function.update_self ..
    rw [flight]
    exact forall₂_snoc mirrors.flight carries
  · exact ⟨faults, c, mirrors.same rfl (Function.update_of_ne here _ _) rfl rfl⟩

/-- Each step of the network is one of the channel, or none. -/
theorem Mirrors.step (mirrors : Mirrors archive a acts s faults c) (readable : Readable archive act)
    (stepped : EventRelays.step archive s act = some t) : ∃ faults c, Mirrors archive a (acts ++ [act]) t faults c := by
  cases act with
  | construct b =>
    obtain ⟨-, same⟩ := Option.ite_none_right_eq_some.mp stepped
    obtain rfl := Option.some_inj.mp same
    obtain ⟨faults, c, there⟩ : ∃ faults c, Mirrors archive a (acts ++ [.construct b])
      (s.setHub b { s.hub b with active := true, waiting := true }) faults c :=
    mirrors.setHub b { s.hub b with active := true, waiting := true } rfl rfl
    exact ⟨faults, c, there.run, there.backed, there.sent, there.flight, there.published, there.fine⟩
  | destruct b =>
    obtain ⟨-, same⟩ := Option.ite_none_right_eq_some.mp stepped
    obtain rfl := Option.some_inj.mp same
    exact mirrors.setHub b _ rfl rfl
  | leave b =>
    obtain ⟨-, same⟩ := Option.ite_none_right_eq_some.mp stepped
    obtain rfl := Option.some_inj.mp same
    exact mirrors.setHub b _ rfl rfl
  | handleReceiveFrom request =>
    cases request with
    | none =>
      obtain rfl := Option.some_inj.mp stepped
      exact ⟨faults, c, mirrors.same rfl rfl rfl rfl⟩
    | some i =>
      obtain ⟨b, -, rfl⟩ := Option.map_eq_some_iff.mp stepped
      exact ⟨faults, c, mirrors.same rfl rfl rfl rfl⟩
  | handleEvent memory event =>
    obtain rfl := Option.some_inj.mp stepped
    exact mirrors.handleEvent readable
  | receive b i memory =>
    obtain ⟨-, taken⟩ := Option.ite_none_right_eq_some.mp stepped
    obtain ⟨message, there, rfl⟩ := Option.map_eq_some_iff.mp taken
    exact mirrors.receive there
  | loseRequest i =>
    obtain ⟨b, -, rfl⟩ := Option.map_eq_some_iff.mp stepped
    exact ⟨faults, c, mirrors.same rfl rfl rfl rfl⟩
  | duplicateRequest i =>
    obtain ⟨b, -, rfl⟩ := Option.map_eq_some_iff.mp stepped
    exact ⟨faults, c, mirrors.same rfl rfl rfl rfl⟩
  | lose b i =>
    obtain ⟨message, there, rfl⟩ := Option.map_eq_some_iff.mp stepped
    exact mirrors.lose there
  | duplicate b i =>
    obtain ⟨message, there, rfl⟩ := Option.map_eq_some_iff.mp stepped
    exact mirrors.duplicate there

end

theorem mirrors_run (a : A) (run : runs (EventRelays.step archive) start acts = some s) (readable : ∀ act ∈ acts, Readable archive act) :
    ∃ faults c, Mirrors archive a acts s faults c := by
  have first : Mirrors archive a [] (start : Network A D F P I R S) [] Channels.empty :=
    ⟨rfl, fun _ among => absurd among List.not_mem_nil, rfl, .nil, .nil, rfl⟩
  exact runs_every_acts (I := fun acts s => ∃ faults c, Mirrors archive a acts s faults c)
    (fun _ _ _ _ mirrors readable stepped => mirrors.choose_spec.choose_spec.step readable stepped) ⟨[], Channels.empty, first⟩
    (every_of_all fun act among _ => readable act among) run

/-! ### What is sent -/

theorem quiet_step (quiet : converted archive act = none) (sent : t.sent = s.sent) (endpoints : s.endpoints ⊆ t.endpoints) :
    (∀ a, t.sent a = s.sent a ++ if a ∈ s.endpoints then (converted archive act).toList else []) ∧ s.endpoints ⊆ t.endpoints := by
  refine ⟨fun a => ?_, endpoints⟩
  rw [quiet, sent, Option.toList_none, ite_self, List.append_nil]

/-- An event is sent to the endpoints that there are, and endpoints stay. -/
theorem step_sends (stepped : EventRelays.step archive s act = some t) :
    (∀ a, t.sent a = s.sent a ++ if a ∈ s.endpoints then (converted archive act).toList else []) ∧ s.endpoints ⊆ t.endpoints := by
  cases act with
  | construct b =>
    obtain ⟨-, same⟩ := Option.ite_none_right_eq_some.mp stepped
    obtain rfl := Option.some_inj.mp same
    exact quiet_step rfl rfl (List.Subset.refl _)
  | destruct b =>
    obtain ⟨-, same⟩ := Option.ite_none_right_eq_some.mp stepped
    obtain rfl := Option.some_inj.mp same
    exact quiet_step rfl rfl (List.Subset.refl _)
  | leave b =>
    obtain ⟨-, same⟩ := Option.ite_none_right_eq_some.mp stepped
    obtain rfl := Option.some_inj.mp same
    exact quiet_step rfl rfl (List.Subset.refl _)
  | handleReceiveFrom request =>
    cases request with
    | none =>
      obtain rfl := Option.some_inj.mp stepped
      exact quiet_step rfl rfl (List.Subset.refl _)
    | some i =>
      obtain ⟨b, -, rfl⟩ := Option.map_eq_some_iff.mp stepped
      refine quiet_step rfl rfl ?_
      dsimp only
      split_ifs
      · exact List.Subset.refl _
      · exact List.subset_append_left _ _
  | handleEvent memory event =>
    obtain rfl := Option.some_inj.mp stepped
    cases made : datagram archive memory event with
    | none =>
      have quiet : converted archive (.handleEvent memory event : Act A D F P I R S) = none := by
        rw [converted, made]
        rfl
      have same : s.handleEvent archive memory event = s := by rw [Network.handleEvent, made]
      rw [same]
      exact quiet_step quiet rfl (List.Subset.refl _)
    | some message =>
      have sends : converted archive (.handleEvent memory event : Act A D F P I R S) = some event := by
        rw [converted, made]
        rfl
      rw [Network.handleEvent, made, sends]
      refine ⟨fun a => ?_, List.Subset.refl _⟩
      dsimp only
      split_ifs
      · rfl
      · exact (List.append_nil _).symm
  | receive b i memory =>
    obtain ⟨-, taken⟩ := Option.ite_none_right_eq_some.mp stepped
    obtain ⟨message, -, rfl⟩ := Option.map_eq_some_iff.mp taken
    exact quiet_step rfl rfl (List.Subset.refl _)
  | loseRequest i =>
    obtain ⟨b, -, rfl⟩ := Option.map_eq_some_iff.mp stepped
    exact quiet_step rfl rfl (List.Subset.refl _)
  | duplicateRequest i =>
    obtain ⟨b, -, rfl⟩ := Option.map_eq_some_iff.mp stepped
    exact quiet_step rfl rfl (List.Subset.refl _)
  | lose b i =>
    obtain ⟨message, -, rfl⟩ := Option.map_eq_some_iff.mp stepped
    exact quiet_step rfl rfl (List.Subset.refl _)
  | duplicate b i =>
    obtain ⟨message, -, rfl⟩ := Option.map_eq_some_iff.mp stepped
    exact quiet_step rfl rfl (List.Subset.refl _)

/-- From the first request on each event is sent to an endpoint once. -/
theorem registered_sent (run : runs (EventRelays.step archive) s acts = some t) (there : a ∈ s.endpoints) :
    t.sent a = s.sent a ++ acts.filterMap (converted archive) := by
  induction acts generalizing s with
  | nil =>
    obtain rfl := Option.some_inj.mp run
    exact (List.append_nil _).symm
  | cons act acts ih =>
    obtain ⟨u, stepped, rest⟩ := Option.bind_eq_some_iff.mp run
    obtain ⟨sent, stay⟩ := step_sends stepped
    have first := sent a
    rw [if_pos there] at first
    rw [ih rest (stay there), first, List.append_assoc]
    refine congrArg (s.sent a ++ ·) ?_
    cases made : converted archive act with
    | none => rw [List.filterMap_cons_none made, Option.toList_none, List.nil_append]
    | some event => rw [List.filterMap_cons_some made, Option.toList_some, List.singleton_append]

theorem unregistered_sent (run : runs (EventRelays.step archive) start acts = some s) (absent : a ∉ s.endpoints) : s.sent a = [] := by
  refine runs_invariant (I := fun _ s => a ∉ s.endpoints → s.sent a = []) (fun _ => rfl) (fun _ act s t _ none stepped absent => ?_) run absent
  obtain ⟨sent, stay⟩ := step_sends stepped
  have before : a ∉ s.endpoints := fun there => absent (stay there)
  rw [sent, none before, if_neg before]
  rfl

end

/-- The text of an event with which nothing else has been written. -/
def temperature : List UInt8 :=
  [50, 50, 32, 115, 101, 114, 105, 97, 108, 105, 122, 97, 116, 105, 111, 110, 58, 58, 97, 114, 99, 104, 105, 118, 101, 32, 55, 32, 48, 32,
    48, 32, 51, 32, 51, 49, 32, 114, 97, 109, 58, 58, 118, 101, 104, 105, 99, 108, 101, 58, 58, 84, 101, 109, 112, 83, 101, 110, 115, 111,
    114, 69, 118, 101, 110, 116, 32, 49, 32, 48, 32, 48, 32, 48, 32, 48, 32, 48, 32, 52, 32, 84, 69, 77, 80, 32, 55, 32, 55, 32, 85, 78,
    78, 65, 77, 69, 68, 32, 51, 32, 50, 49, 32]

def measured : AnyEvent ℤ ℤ Unit Unit Unit Unit := .tempSensor ⟨⟨"TEMP", none, 7⟩, 3, 21⟩

def readOne (message : List UInt8) : Except Code (List (Datum ℤ ℤ)) :=
  if message = temperature ++ [0] then .ok (writeEvent named zeroed [] measured).2 else .error .inputStreamError

/-- The archive as it behaves for one event. -/
def oneEvent : Archive ℕ ℤ ℤ Unit where
  text _ := temperature
  read := readOne
  registry := named
  lookupByName _ _ := none

/-- A hub at an endpoint gets the second of two events. -/
def request : List (Act ℕ ℤ ℤ Unit Unit Unit Unit) :=
  [.handleEvent zeroed measured, .construct 51346, .duplicateRequest 0, .handleReceiveFrom (some 1), .handleReceiveFrom (some 0),
    .handleEvent zeroed measured, .destruct 51346, .receive 51346 0 zeroed]

end Tortuga.RelayRuns
