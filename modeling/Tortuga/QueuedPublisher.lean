import Tortuga.Machines
import Mathlib.Data.List.Nodup
import Mathlib.Logic.Function.Basic

/-!
`QueuedEventPublisherBaseTemplate`: it subscribes at its parent once for each type of event
that somebody wants, and counts who does. The handlers are connected to the publisher it
is itself (`EventPublisherBaseTemplate`).
-/
namespace Tortuga.QueuedPublisher
open Tortuga.Machines
set_option linter.unusedSimpArgs false

/-! ### The publisher -/

/-- A connection to the internal publisher: `m_type` and `m_connected`. -/
structure Internal (T : Type) where
  type : T
  connected : Bool
  deriving DecidableEq, Repr

/-- `m_connectionTypes` with the external connections by number, the live subscriptions at the
    parent, `m_signals` with the handlers by the number of their connection, and all connections.
    `failed` says that the assertion of `unSubscribe` has stopped the program. -/
structure Publisher (T : Type) where
  connectionTypes : T → Option (Int × ℕ)
  parent : List (ℕ × T)
  externals : ℕ
  signals : T → List ℕ
  connections : List (Internal T)
  failed : Bool

/-- A call. The handle of a connection may have copies, so it may be disconnected again. -/
inductive Act (T : Type) where
  | subscribe (type : T)
  | disconnect (connection : ℕ)
  deriving DecidableEq, Repr

variable {T : Type} [DecidableEq T]

namespace Publisher

/-- `subscribe` up to the internal publisher. -/
def attach (s : Publisher T) (type : T) : Publisher T :=
  match s.connectionTypes type with
  | none =>
    { s with
      parent := s.parent ++ [(s.externals, type)]
      externals := s.externals + 1
      connectionTypes := Function.update s.connectionTypes type (some (1, s.externals)) }
  | some (refCount, external) =>
    { s with connectionTypes := Function.update s.connectionTypes type (some (refCount + 1, external)) }

/-- `EventPublisherBaseTemplate::subscribe`. -/
def connect (s : Publisher T) (type : T) : Publisher T :=
  { s with
    signals := Function.update s.signals type (s.signals type ++ [s.connections.length])
    connections := s.connections ++ [⟨type, true⟩] }

def subscribe (s : Publisher T) (type : T) : Publisher T := (s.attach type).connect type

def unSubscribe (s : Publisher T) (type : T) : Publisher T :=
  match s.connectionTypes type with
  | none => { s with failed := true }
  | some (refCount, connection) =>
    if refCount = 1 then
      { s with
        connectionTypes := Function.update s.connectionTypes type none
        parent := s.parent.filter (fun p => p.1 ≠ connection) }
    else { s with connectionTypes := Function.update s.connectionTypes type (some (refCount - 1, connection)) }

/-- `disconnect` of the internal connection. -/
def hangUp (s : Publisher T) (connection : ℕ) (type : T) : Publisher T :=
  { s with
    signals := Function.update s.signals type ((s.signals type).filter (fun c => c ≠ connection))
    connections := s.connections.set connection ⟨type, false⟩ }

def disconnect (s : Publisher T) (connection : ℕ) (type : T) : Publisher T :=
  if (s.unSubscribe type).failed then s.unSubscribe type else (s.unSubscribe type).hangUp connection type

end Publisher

/-- The next call, of a program that has not been stopped and on a connection that there is. -/
def step (s : Publisher T) : Act T → Option (Publisher T)
  | .subscribe type => if s.failed then none else some (s.subscribe type)
  | .disconnect connection =>
    match s.connections[connection]? with
    | some internal => if s.failed then none else some (s.disconnect connection internal.type)
    | none => none

def start : Publisher T := ⟨fun _ => none, [], 0, fun _ => [], [], false⟩

/-! ### What it is for -/

/-- The connections of a type that are still connected. -/
def live (s : Publisher T) (type : T) : List ℕ :=
  (List.range s.connections.length).filter (fun c => s.connections[c]? = some ⟨type, true⟩)

/-- The subscriptions at the parent for a type. -/
def subscriptions (s : Publisher T) (type : T) : List (ℕ × T) := s.parent.filter (fun p => p.2 = type)

/-- The connections whose handlers are called for one event of the parent: each subscription
    queues the event, and what is queued goes to the handlers of its type. -/
def deliveries (s : Publisher T) (type : T) : List ℕ := (subscriptions s type).flatMap (fun _ => s.signals type)

/-- The reference count, zero for a type that is not in the map. -/
def refCount (s : Publisher T) (type : T) : Int := (s.connectionTypes type).elim 0 Prod.fst

/-- One subscription for each type with a live connection, the right count, and an event goes to
    each live connection once. -/
structure Kept (s : Publisher T) : Prop where
  asserted : s.failed = false
  parent : ∀ type, (subscriptions s type).length = if live s type = [] then 0 else 1
  refs : ∀ type, refCount s type = (live s type).length
  delivery : ∀ type, deliveries s type = live s type

/-- A call of `disconnect` changes no other connection's delivery. -/
def Unmoved (s : Publisher T) : Act T → Prop
  | .subscribe _ => True
  | .disconnect c => ∀ t, step s (.disconnect c) = some t → ∀ type,
      (deliveries t type).filter (fun d => d ≠ c) = (deliveries s type).filter (fun d => d ≠ c)

/-- Only a connection that is still connected is disconnected. -/
def Ready (s : Publisher T) : Act T → Prop
  | .subscribe _ => True
  | .disconnect c => (s.connections[c]?).any Internal.connected = true

/-! ### Live connections -/

section
variable {s t : Publisher T} {type : T}

theorem live_connect (s : Publisher T) (type u : T) :
    live (s.connect type) u = live s u ++ if u = type then [s.connections.length] else [] := by
  have old : (List.range s.connections.length).filter (fun c => (s.connections ++ [⟨type, true⟩])[c]? = some ⟨u, true⟩) =
      live s u := by
    refine List.filter_congr (fun c member => ?_)
    rw [List.getElem?_append_left (List.mem_range.mp member)]
  rw [live, Publisher.connect]
  simp only [List.length_append, List.length_cons, List.length_nil, Nat.zero_add, List.range_succ, List.filter_append, old]
  congr 1
  by_cases same : u = type
  · simp [same]
  · have other : ¬ type = u := fun eq => same eq.symm
    simp [same, other]

theorem live_hangUp (s : Publisher T) (c : ℕ) (type u : T) :
    live (s.hangUp c type) u = (live s u).filter (fun d => d ≠ c) := by
  have found (d : ℕ) (inside : d < s.connections.length) :
      (s.connections.set c ⟨type, false⟩)[d]? = some ⟨u, true⟩ ↔ d ≠ c ∧ s.connections[d]? = some ⟨u, true⟩ := by
    rw [List.getElem?_set]
    by_cases same : c = d
    · simp [same, inside]
    · have other : d ≠ c := fun eq => same eq.symm
      simp [same, other]
  rw [live, live, List.filter_filter]
  simp only [Publisher.hangUp, List.length_set]
  refine List.filter_congr (fun d member => ?_)
  rw [← Bool.decide_and]
  exact decide_eq_decide.mpr (found d (List.mem_range.mp member))

theorem live_nodup (s : Publisher T) (type : T) : (live s type).Nodup := List.nodup_range.filter _

theorem mem_live {c : ℕ} : c ∈ live s type ↔ s.connections[c]? = some ⟨type, true⟩ := by
  rw [live, List.mem_filter, List.mem_range]
  constructor
  · rintro ⟨-, found⟩
    simpa using found
  · intro found
    exact ⟨(List.getElem?_eq_some_iff.mp found).1, by simpa using found⟩

/-- A type has one connection less when one of its connections goes. -/
theorem length_without {l : List ℕ} (nodup : l.Nodup) {c : ℕ} (member : c ∈ l) :
    (l.filter (fun d => d ≠ c)).length + 1 = l.length := by
  have gone : l.erase c = l.filter (fun d => d ≠ c) := by
    rw [nodup.erase_eq_filter]
    refine List.filter_congr (fun d _ => ?_)
    by_cases same : d = c <;> simp [same]
  rw [← gone, List.length_erase_of_mem member]
  have := List.length_pos_of_mem member
  omega

theorem filter_without {l : List ℕ} {c : ℕ} (absent : c ∉ l) : l.filter (fun d => d ≠ c) = l := by
  refine List.filter_eq_self.mpr (fun d member => ?_)
  have other : d ≠ c := fun same => absent (same ▸ member)
  simpa using other

/-- A connection is live for no type but its own. -/
theorem not_live {c : ℕ} {internal : Internal T} {u : T} (found : s.connections[c]? = some internal)
    (other : u ≠ internal.type ∨ internal.connected = false) : c ∉ live s u := by
  intro member
  have same := Option.some_inj.mp (found.symm.trans (mem_live.mp member))
  rcases other with type | connected
  · exact type (same ▸ rfl)
  · simp [same] at connected

/-! ### Counts -/

theorem live_attach (s : Publisher T) (type u : T) : live (s.attach type) u = live s u := by
  unfold Publisher.attach
  split <;> rfl

theorem live_subscribe (s : Publisher T) (type u : T) :
    live (s.subscribe type) u = live s u ++ if u = type then [s.connections.length] else [] := by
  have same : (s.attach type).connections = s.connections := by
    unfold Publisher.attach
    split <;> rfl
  rw [Publisher.subscribe, live_connect, live_attach, same]

theorem live_unSubscribe (s : Publisher T) (type u : T) : live (s.unSubscribe type) u = live s u := by
  unfold Publisher.unSubscribe
  split
  · rfl
  · split <;> rfl

theorem refCount_subscribe (s : Publisher T) (type u : T) :
    refCount (s.subscribe type) u = refCount s u + if u = type then 1 else 0 := by
  show refCount (s.attach type) u = _
  rw [Publisher.attach]
  split
  case h_1 none =>
    by_cases same : u = type
    · simp [refCount, same, none]
    · simp [refCount, same]
  case h_2 refs external some =>
    by_cases same : u = type
    · simp [refCount, same, some]
    · simp [refCount, same]

theorem refCount_unSubscribe (asserted : (s.unSubscribe type).failed = false) (u : T) :
    refCount (s.unSubscribe type) u = refCount s u - if u = type then 1 else 0 := by
  rw [Publisher.unSubscribe] at asserted ⊢
  split at asserted
  case h_1 => simp at asserted
  case h_2 refs external some =>
    by_cases same : u = type
    · by_cases last : refs = 1
      · simp [refCount, same, some, last]
      · simp [refCount, same, some, last]
    · by_cases last : refs = 1
      · simp [refCount, same, last]
      · simp [refCount, same, last]

/-- What a possible `disconnect` does to the counts. -/
theorem disconnect_counts (s : Publisher T) (c : ℕ) (type : T) : (s.disconnect c type).failed = true ∨
    ∀ u, refCount (s.disconnect c type) u = refCount s u - (if u = type then 1 else 0) ∧
      live (s.disconnect c type) u = (live s u).filter (fun d => d ≠ c) := by
  rw [Publisher.disconnect]
  split
  case isTrue failed => exact .inl failed
  case isFalse asserted =>
    refine .inr (fun u => ⟨?_, ?_⟩)
    · exact refCount_unSubscribe (by simpa using asserted) u
    · rw [live_hangUp, live_unSubscribe]

end

/-! ### The invariant -/

/-- The map says of a type how many live connections it has and which subscription it holds. -/
structure Recorded (s : Publisher T) (type : T) : Prop where
  absent : s.connectionTypes type = none → live s type = [] ∧ subscriptions s type = []
  present : ∀ refs external, s.connectionTypes type = some (refs, external) →
    refs = (live s type).length ∧ live s type ≠ [] ∧ subscriptions s type = [(external, type)]

structure Inv (s : Publisher T) : Prop where
  asserted : s.failed = false
  fresh : ∀ p ∈ s.parent, p.1 < s.externals
  apart : ∀ p ∈ s.parent, ∀ q ∈ s.parent, p.1 = q.1 → p = q
  recorded : ∀ type, Recorded s type
  signals : ∀ type, s.signals type = live s type

section
variable {s t : Publisher T} {type u : T}

theorem inv_start : Inv (start : Publisher T) where
  asserted := rfl
  fresh _ member := absurd member List.not_mem_nil
  apart _ member := absurd member List.not_mem_nil
  recorded _ := ⟨fun _ => ⟨rfl, rfl⟩, fun _ _ found => by simp [start] at found⟩
  signals _ := rfl

theorem Inv.refs (inv : Inv s) (type : T) : refCount s type = (live s type).length := by
  cases found : s.connectionTypes type with
  | none => simp [refCount, found, ((inv.recorded type).absent found).1]
  | some record =>
    have same := ((inv.recorded type).present record.1 record.2 found).1
    simpa [refCount, found] using same

theorem Inv.kept (inv : Inv s) : Kept s where
  asserted := inv.asserted
  refs := inv.refs
  parent type := by
    cases found : s.connectionTypes type with
    | none =>
      obtain ⟨live, subs⟩ := (inv.recorded type).absent found
      simp [live, subs]
    | some record =>
      obtain ⟨-, live, subs⟩ := (inv.recorded type).present record.1 record.2 found
      simp [live, subs]
  delivery type := by
    cases found : s.connectionTypes type with
    | none =>
      obtain ⟨live, subs⟩ := (inv.recorded type).absent found
      simp [deliveries, live, subs]
    | some record =>
      obtain ⟨-, -, subs⟩ := (inv.recorded type).present record.1 record.2 found
      simp [deliveries, subs, inv.signals]

/-- Another type is left alone. -/
theorem Recorded.other (recorded : Recorded s u) (map : t.connectionTypes u = s.connectionTypes u)
    (same : live t u = live s u) (subs : subscriptions t u = subscriptions s u) : Recorded t u := by
  refine ⟨fun none => ?_, fun refs external some => ?_⟩
  · rw [same, subs]
    exact recorded.absent (map ▸ none)
  · rw [same, subs]
    exact recorded.present refs external (map ▸ some)

theorem signals_subscribe (s : Publisher T) (type u : T) :
    (s.subscribe type).signals u = s.signals u ++ if u = type then [s.connections.length] else [] := by
  have same : (s.attach type).signals = s.signals ∧ (s.attach type).connections = s.connections := by
    unfold Publisher.attach
    split <;> exact ⟨rfl, rfl⟩
  rw [Publisher.subscribe, Publisher.connect, same.1, same.2]
  by_cases at' : u = type <;> simp [at']

theorem Inv.subscribe (inv : Inv s) (type : T) : Inv (s.subscribe type) := by
  have signals (u : T) : (s.subscribe type).signals u = live (s.subscribe type) u := by
    rw [signals_subscribe, live_subscribe, inv.signals]
  have longer : live (s.subscribe type) type = live s type ++ [s.connections.length] := by
    rw [live_subscribe, if_pos rfl]
  have unchanged (u : T) (other : u ≠ type) : live (s.subscribe type) u = live s u := by
    rw [live_subscribe, if_neg other, List.append_nil]
  cases found : s.connectionTypes type with
  | none =>
    have attached : s.attach type = { s with
        parent := s.parent ++ [(s.externals, type)]
        externals := s.externals + 1
        connectionTypes := Function.update s.connectionTypes type (some (1, s.externals)) } := by
      rw [Publisher.attach, found]
    obtain ⟨live, subs⟩ := (inv.recorded type).absent found
    rw [subscriptions] at subs
    refine ⟨?_, ?_, ?_, fun u => ?_, signals⟩
    · simpa [Publisher.subscribe, attached, Publisher.connect] using inv.asserted
    · simp only [Publisher.subscribe, attached, Publisher.connect]
      intro p member
      rcases List.mem_append.mp member with old | new
      · exact Nat.lt_succ_of_lt (inv.fresh p old)
      · rw [List.mem_singleton.mp new]
        exact Nat.lt_succ_self s.externals
    · simp only [Publisher.subscribe, attached, Publisher.connect]
      intro p first q second same
      rcases List.mem_append.mp first with oldP | newP
      · rcases List.mem_append.mp second with oldQ | newQ
        · exact inv.apart p oldP q oldQ same
        · have below := inv.fresh p oldP
          rw [same, List.mem_singleton.mp newQ] at below
          exact absurd below (Nat.lt_irrefl _)
      · rcases List.mem_append.mp second with oldQ | newQ
        · have below := inv.fresh q oldQ
          rw [← same, List.mem_singleton.mp newP] at below
          exact absurd below (Nat.lt_irrefl _)
        · rw [List.mem_singleton.mp newP, List.mem_singleton.mp newQ]
    · by_cases same : u = type
      · subst same
        refine ⟨fun none => ?_, fun refs external some => ?_⟩
        · simp [Publisher.subscribe, attached, Publisher.connect] at none
        · obtain ⟨rfl, rfl⟩ : 1 = refs ∧ s.externals = external := by
            simpa [Publisher.subscribe, attached, Publisher.connect] using some
          refine ⟨by simp [longer, live], by simp [longer], ?_⟩
          simp [subscriptions, Publisher.subscribe, attached, Publisher.connect, subs]
      · refine (inv.recorded u).other ?_ (unchanged u same) ?_
        · simp [Publisher.subscribe, attached, Publisher.connect, same]
        · have other : ¬ type = u := fun eq => same eq.symm
          simp [subscriptions, Publisher.subscribe, attached, Publisher.connect, other]
  | some record =>
    have attached : s.attach type =
        { s with connectionTypes := Function.update s.connectionTypes type (some (record.1 + 1, record.2)) } := by
      rw [Publisher.attach, found]
    obtain ⟨refs, some', subs⟩ := (inv.recorded type).present record.1 record.2 found
    refine ⟨?_, ?_, ?_, fun u => ?_, signals⟩
    · simpa [Publisher.subscribe, attached, Publisher.connect] using inv.asserted
    · simpa only [Publisher.subscribe, attached, Publisher.connect] using inv.fresh
    · simpa only [Publisher.subscribe, attached, Publisher.connect] using inv.apart
    · have parent : subscriptions (s.subscribe type) u = subscriptions s u := by
        simp [subscriptions, Publisher.subscribe, attached, Publisher.connect]
      by_cases same : u = type
      · subst same
        refine ⟨fun none => ?_, fun n external some => ?_⟩
        · simp [Publisher.subscribe, attached, Publisher.connect] at none
        · obtain ⟨rfl, rfl⟩ : record.1 + 1 = n ∧ record.2 = external := by
            simpa [Publisher.subscribe, attached, Publisher.connect] using some
          refine ⟨by simp [longer, refs], by simp [longer], parent.trans subs⟩
      · refine (inv.recorded u).other ?_ (unchanged u same) parent
        simp [Publisher.subscribe, attached, Publisher.connect, same]

theorem signals_unSubscribe (s : Publisher T) (type : T) : (s.unSubscribe type).signals = s.signals := by
  unfold Publisher.unSubscribe
  split
  · rfl
  · split <;> rfl

/-- `unSubscribe` for a type that has a live connection. -/
theorem Inv.unSubscribe (inv : Inv s) (some : live s type ≠ []) : (s.unSubscribe type).failed = false ∧
    (∀ p ∈ (s.unSubscribe type).parent, p ∈ s.parent) ∧ (s.unSubscribe type).externals = s.externals := by
  cases found : s.connectionTypes type with
  | none => exact absurd ((inv.recorded type).absent found).1 some
  | some record =>
    rw [Publisher.unSubscribe, found]
    dsimp only
    split
    · exact ⟨inv.asserted, fun p member => (List.mem_filter.mp member).1, rfl⟩
    · exact ⟨inv.asserted, fun p member => member, rfl⟩

/-- The map after one connection `c` of the type has gone. -/
theorem Inv.recorded_disconnect (inv : Inv s) {c : ℕ} (member : c ∈ live s type) (u : T)
    (same : t.connectionTypes = (s.unSubscribe type).connectionTypes) (parent : t.parent = (s.unSubscribe type).parent)
    (without : live t u = (live s u).filter (fun d => d ≠ c)) : Recorded t u := by
  cases found : s.connectionTypes type with
  | none =>
    rw [((inv.recorded type).absent found).1] at member
    exact absurd member List.not_mem_nil
  | some record =>
    obtain ⟨refs, some', subs⟩ := (inv.recorded type).present record.1 record.2 found
    have shorter := length_without (live_nodup s type) member
    have held : (record.2, type) ∈ s.parent := by
      have here : (record.2, type) ∈ subscriptions s type := by simp [subs]
      exact (List.mem_filter.mp here).1
    by_cases at' : u = type
    · subst at'
      by_cases last : record.1 = 1
      · -- The last connection goes, and the subscription with it.
        have left : (s.unSubscribe u).connectionTypes u = none ∧
            (s.unSubscribe u).parent = s.parent.filter (fun p => p.1 ≠ record.2) := by
          simp [Publisher.unSubscribe, found, last]
        refine ⟨fun _ => ⟨?_, ?_⟩, fun n external some => ?_⟩
        · rw [without]
          exact List.length_eq_zero_iff.mp (by omega)
        · rw [subscriptions, parent, left.2, List.filter_filter]
          have both : s.parent.filter (fun p => p.2 = u && decide (p.1 ≠ record.2)) =
              (subscriptions s u).filter (fun p => p.1 ≠ record.2) := by
            rw [subscriptions, List.filter_filter]
            exact List.filter_congr (fun p _ => Bool.and_comm _ _)
          rw [both, subs]
          simp
        · rw [same, left.1] at some
          contradiction
      · have left : (s.unSubscribe u).connectionTypes u = some (record.1 - 1, record.2) ∧
            (s.unSubscribe u).parent = s.parent := by simp [Publisher.unSubscribe, found, last]
        refine ⟨fun none => ?_, fun n external some => ?_⟩
        · rw [same, left.1] at none
          contradiction
        · rw [same, left.1] at some
          obtain ⟨rfl, rfl⟩ : record.1 - 1 = n ∧ record.2 = external := by simpa using some
          refine ⟨by rw [without]; omega, fun empty => ?_, ?_⟩
          · rw [← without, empty, List.length_nil] at shorter
            omega
          · rw [subscriptions, parent, left.2]
            exact subs
    · have others : (live s u).filter (fun d => d ≠ c) = live s u := by
        refine filter_without (fun here => at' ?_)
        have twice := (mem_live.mp here).symm.trans (mem_live.mp member)
        exact congrArg Internal.type (Option.some_inj.mp twice)
      refine (inv.recorded u).other ?_ (without.trans others) ?_
      · rw [same, Publisher.unSubscribe, found]
        dsimp only
        split <;> simp [at']
      · rw [subscriptions, subscriptions, parent, Publisher.unSubscribe, found]
        dsimp only
        split
        · rw [List.filter_filter]
          refine List.filter_congr (fun p here => ?_)
          by_cases its : p.2 = u
          · -- A subscription of another type is not the one that goes.
            have kept : p.1 ≠ record.2 := by
              intro eq
              have whole := inv.apart p here _ held eq
              exact at' (its ▸ congrArg Prod.snd whole)
            simp [its, kept]
          · simp [its]
        · rfl

theorem Inv.disconnect (inv : Inv s) {c : ℕ} (found : s.connections[c]? = some ⟨type, true⟩) : Inv (s.disconnect c type) := by
  have member : c ∈ live s type := mem_live.mpr found
  obtain ⟨asserted, fewer, externals⟩ := inv.unSubscribe (List.ne_nil_of_mem member)
  have done : s.disconnect c type = (s.unSubscribe type).hangUp c type := by
    rw [Publisher.disconnect, if_neg (by simp [asserted])]
  have without (u : T) : live (s.disconnect c type) u = (live s u).filter (fun d => d ≠ c) := by
    rw [done, live_hangUp, live_unSubscribe]
  rw [done] at without ⊢
  refine ⟨asserted, fun p here => ?_, fun p here q there => ?_, fun u => ?_, fun u => ?_⟩
  · show p.1 < (s.unSubscribe type).externals
    rw [externals]
    exact inv.fresh p (fewer p here)
  · exact inv.apart p (fewer p here) q (fewer q there)
  · exact inv.recorded_disconnect member u rfl rfl (without u)
  · rw [without]
    show Function.update (s.unSubscribe type).signals type _ u = _
    rw [signals_unSubscribe]
    by_cases same : u = type
    · rw [same, Function.update_self, inv.signals]
    · rw [Function.update_of_ne same, inv.signals]
      refine (filter_without (not_live found (.inl same))).symm

theorem step_disconnect {c : ℕ} (stepped : step s (.disconnect c) = some t) :
    ∃ internal, s.connections[c]? = some internal ∧ s.failed = false ∧ t = s.disconnect c internal.type := by
  rw [step] at stepped
  split at stepped
  case h_1 internal found =>
    split at stepped
    · contradiction
    · next asserted => exact ⟨internal, found, by simpa using asserted, (Option.some_inj.mp stepped).symm⟩
  case h_2 => contradiction

theorem step_subscribe (stepped : step s (.subscribe type) = some t) : s.failed = false ∧ t = s.subscribe type := by
  rw [step] at stepped
  split at stepped
  · contradiction
  · next asserted => exact ⟨by simpa using asserted, (Option.some_inj.mp stepped).symm⟩

theorem Inv.step {a : Act T} (inv : Inv s) (ready : Ready s a) (stepped : step s a = some t) : Inv t := by
  cases a with
  | subscribe type =>
    obtain ⟨-, rfl⟩ := step_subscribe stepped
    exact inv.subscribe type
  | disconnect c =>
    obtain ⟨⟨type, connected⟩, found, -, rfl⟩ := step_disconnect stepped
    obtain rfl : connected = true := by simpa [Ready, found] using ready
    exact inv.disconnect found

/-! ### Repeated disconnects -/

/-- The program has been stopped, or a count is too low. -/
def Harmed (s : Publisher T) : Prop := s.failed = true ∨ ∃ type, refCount s type < (live s type).length

/-- A call of `disconnect` takes at most one connection of the type away, and always one from the count. -/
theorem harmed_disconnect {c : ℕ} {internal : Internal T} (found : s.connections[c]? = some internal)
    (low : refCount s u < (live s u).length ∨ u = internal.type ∧ c ∉ live s u ∧ refCount s u ≤ (live s u).length) :
    Harmed (s.disconnect c internal.type) := by
  rcases disconnect_counts s c internal.type with failed | counts
  · exact .inl failed
  · obtain ⟨refs, without⟩ := counts u
    refine .inr ⟨u, ?_⟩
    rw [refs, without]
    rcases low with low | ⟨rfl, absent, low⟩
    · by_cases member : c ∈ live s u
      · have same : u = internal.type := congrArg Internal.type (Option.some_inj.mp ((mem_live.mp member).symm.trans found))
        have shorter := length_without (live_nodup s u) member
        rw [if_pos same]
        omega
      · rw [filter_without member]
        split <;> omega
    · rw [filter_without absent, if_pos rfl]
      omega

theorem Harmed.step {a : Act T} (harmed : Harmed s) (stepped : step s a = some t) : Harmed t := by
  cases a with
  | subscribe type =>
    obtain ⟨asserted, rfl⟩ := step_subscribe stepped
    rcases harmed with failed | ⟨u, low⟩
    · simp [asserted] at failed
    · refine .inr ⟨u, ?_⟩
      rw [refCount_subscribe, live_subscribe]
      by_cases same : u = type
      · simp only [same, ↓reduceIte, List.length_append, List.length_singleton] at low ⊢
        omega
      · simpa [same] using low
  | disconnect c =>
    obtain ⟨internal, found, asserted, rfl⟩ := step_disconnect stepped
    rcases harmed with failed | ⟨u, low⟩
    · simp [asserted] at failed
    · exact harmed_disconnect found (.inl low)

theorem harmed_of_not_ready {a : Act T} (inv : Inv s) (stepped : step s a = some t) (bad : ¬ Ready s a) : Harmed t := by
  cases a with
  | subscribe type => exact absurd trivial bad
  | disconnect c =>
    obtain ⟨internal, found, -, rfl⟩ := step_disconnect stepped
    have gone : internal.connected = false := by simpa [Ready, found] using bad
    have refs := inv.refs internal.type
    exact harmed_disconnect found (.inr ⟨rfl, not_live found (.inr gone), Int.le_of_eq refs⟩)

theorem Kept.not_harmed (kept : Kept s) : ¬ Harmed s := by
  rintro (failed | ⟨type, low⟩)
  · simp [kept.asserted] at failed
  · have := kept.refs type
    omega

theorem Inv.unmoved {a : Act T} (inv : Inv s) (ready : Ready s a) : Unmoved s a := by
  cases a with
  | subscribe type => trivial
  | disconnect c =>
    intro t stepped type
    have kept := (inv.step ready stepped).kept
    obtain ⟨internal, found, -, rfl⟩ := step_disconnect stepped
    rcases disconnect_counts s c internal.type with failed | counts
    · simp [kept.asserted] at failed
    · rw [kept.delivery, inv.kept.delivery, (counts type).2, List.filter_filter]
      exact List.filter_congr (fun d _ => Bool.and_self _)

end

/-! ### Every run -/

/-- In every sequence of calls the books are right, and no `disconnect` changes what another
    connection gets, exactly when every connection is disconnected only while it is connected. -/
theorem books_iff (acts : List (Act T)) (s : Publisher T) (run : runs step start acts = some s) :
    Kept s ∧ Every step Unmoved start acts ↔ Every step Ready start acts := by
  constructor
  · rintro ⟨kept, -⟩
    exact every_of_runs (fun _ _ _ inv ready stepped => Inv.step inv ready stepped) (fun _ _ _ => Harmed.step)
      (fun _ _ _ => harmed_of_not_ready) inv_start run kept.not_harmed
  · intro ready
    refine ⟨Inv.kept (runs_every (fun _ _ _ inv ready stepped => inv.step ready stepped) inv_start ready run), ?_⟩
    exact every_of_every (fun _ _ _ inv ready stepped => Inv.step inv ready stepped) (fun _ _ => Inv.unmoved) inv_start ready

instance (s : Publisher T) : ∀ a, Decidable (Ready s a)
  | .subscribe _ => isTrue trivial
  | .disconnect c => inferInstanceAs (Decidable ((s.connections[c]?).any Internal.connected = true))

/-- Two handlers for one type, and one for another. -/
def calls : List (Act ℕ) := [.subscribe 7, .subscribe 7, .subscribe 9, .disconnect 0, .subscribe 7, .disconnect 2]

theorem books_iff_calls : ∃ s, runs step start calls = some s ∧ Kept s ∧ Every step Unmoved start calls :=
  ⟨_, rfl, (books_iff calls _ rfl).mpr (by decide)⟩

/-- The first of two connections is disconnected twice: the subscription at the parent goes,
    and the second connection gets no more events. -/
theorem not_books : ¬ ∀ (acts : List (Act ℕ)) (s : Publisher ℕ), runs step start acts = some s →
    Kept s ∧ Every step Unmoved start acts := by
  intro books
  have kept := (books [.subscribe 7, .subscribe 7, .disconnect 0, .disconnect 0] _ rfl).1
  exact absurd (kept.delivery 7) (by decide)

end Tortuga.QueuedPublisher
