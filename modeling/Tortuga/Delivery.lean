import Mathlib.Data.List.Nodup
import Tortuga.EventHub

/-!
What the hubs deliver, over every sequence of actions of the program and its handlers. For
a slot and an event, the calls made and the calls that are due are what the publications
of the event and the queue ask for.
-/
namespace Tortuga.EventHub
open Tortuga.Machines
set_option linter.unusedSimpArgs false

section
variable {attached : ℕ → Option HubRef} {s : State}

/-! ### Connections -/

/-- The slot is connected once, to this signal. -/
def Only (slots : Source → List Slot) (σ : Slot) (source : Source) : Prop :=
  ∀ x, (slots x).count σ = if x = source then 1 else 0

/-- Each connection has been made once, and the queue is connected to all events of the hub. -/
structure Wired (s : State) : Prop where
  fresh : ∀ c, s.connections ≤ c → ∀ x, (s.slots x).count (.handler c) = 0
  once : ∀ c, c < s.connections → ∃ source, Only s.slots (.handler c) source
  queue : Only s.slots .queueEvent (.all .hub)

theorem count_subscribed (s : State) (source x : Source) (σ : Slot) :
    (Function.update s.slots source (s.slots source ++ [.handler s.connections]) x).count σ =
      (s.slots x).count σ + if x = source ∧ σ = .handler s.connections then 1 else 0 := by
  by_cases here : x = source
  · subst here
    rw [Function.update_self, List.count_append, List.count_singleton]
    by_cases same : σ = .handler s.connections
    · rw [same]
      simp
    · simp [same, Ne.symm same]
  · simp [here]

/-- A subscription leaves the other slots as they are. -/
theorem count_subscribed_ne {σ : Slot} (other : σ ≠ .handler s.connections) (source x : Source) :
    (Function.update s.slots source (s.slots source ++ [.handler s.connections]) x).count σ = (s.slots x).count σ := by
  rw [count_subscribed, if_neg fun both => other both.2, Nat.add_zero]

theorem initial_wired : Wired initial := by
  refine ⟨fun c _ x => ?_, fun c below => absurd below (Nat.not_lt_zero c), fun x => ?_⟩
  · unfold initial
    dsimp only
    split <;> simp
  · unfold initial
    dsimp only
    split <;> simp

theorem step_wired (reaction : List Action) (wired : Wired s) : Wired (step attached s reaction) := by
  have same (t : State) (slots : t.slots = s.slots) (connections : t.connections = s.connections) : Wired t := by
    refine ⟨?_, ?_, ?_⟩
    · rw [slots, connections]
      exact wired.fresh
    · rw [slots, connections]
      exact wired.once
    · rw [slots]
      exact wired.queue
  refine step_cases (P := Wired) s reaction (fun _ => ?_) (fun _ _ _ _ _ => ?_) (fun source rest _ => ?_)
    (fun _ _ _ => ?_) (fun _ _ _ _ _ => ?_) (fun _ _ _ _ _ => ?_) (fun _ _ _ _ _ => ?_) (fun _ _ _ _ _ _ => ?_)
  case refine_3 =>
    refine ⟨fun c above x => ?_, fun c below => ?_, fun x => ?_⟩
    · have other : Slot.handler c ≠ .handler s.connections := by
        rintro ⟨⟩
        exact Nat.lt_irrefl _ above
      exact (count_subscribed_ne other source x).trans (wired.fresh c (Nat.le_of_succ_le above) x)
    · rcases Nat.lt_succ_iff_lt_or_eq.mp below with old | rfl
      · obtain ⟨there, only⟩ := wired.once c old
        have other : Slot.handler c ≠ .handler s.connections := by
          rintro ⟨⟩
          exact Nat.lt_irrefl _ old
        exact ⟨there, fun x => (count_subscribed_ne other source x).trans (only x)⟩
      · refine ⟨source, fun x => ?_⟩
        refine (count_subscribed s source x _).trans ?_
        rw [wired.fresh s.connections (Nat.le_refl _) x]
        simp
    · exact (count_subscribed_ne (by simp) source x).trans (wired.queue x)
  all_goals exact same _ rfl rfl

/-! ### Events -/

/-- Only what has been published is due, waits, or has been delivered. -/
structure Known (s : State) : Prop where
  stack : ∀ w ∈ s.stack, ∀ e, w.Concerns e → e ∈ s.published
  queue : ∀ e ∈ s.queue, e ∈ s.published
  calls : ∀ k ∈ s.calls, k.2 ∈ s.published
  drained : ∀ e ∈ s.drained, e ∈ s.published

theorem slotCalls_concerns {source : Source} {event e : ℕ} {w : Work} (mem : w ∈ slotCalls source event s)
    (concerns : w.Concerns e) : event = e := by
  obtain ⟨slot, _, rfl⟩ := List.mem_map.mp mem
  exact concerns

theorem hubWork_concerns {h : HubRef} {event e : ℕ} {w : Work} (mem : w ∈ hubWork h event) (concerns : w.Concerns e) :
    event = e := by
  simp only [hubWork, List.mem_cons, List.not_mem_nil, or_false] at mem
  rcases mem with rfl | rfl | rfl <;> exact concerns

theorem publication_concerns {type : EventType} {event e : ℕ} {p : Publisher} {w : Work}
    (mem : w ∈ publication attached type event p) (concerns : w.Concerns e) : event = e := by
  cases p with
  | plain n =>
    rcases List.mem_cons.mp mem with rfl | later
    · exact concerns
    · obtain ⟨h, _, rfl⟩ := List.mem_map.mp later
      exact concerns
  | hub h =>
    cases List.mem_singleton.mp mem
    exact concerns

theorem expands_concerns {w v : Work} {new : List Work} {e : ℕ} (expands : Expands s w new) (mem : v ∈ new)
    (concerns : v.Concerns e) : w.Concerns e := by
  cases expands with
  | publishEvents wait =>
    cases List.mem_singleton.mp mem
    exact concerns
  | publish event => exact hubWork_concerns mem concerns
  | raise p type event => exact slotCalls_concerns mem concerns
  | signal h kind event => exact slotCalls_concerns mem concerns
  | dead c event gone => cases mem
  | waiting empty =>
    cases List.mem_singleton.mp mem
    exact concerns
  | done empty => cases mem

theorem acts_concern_nothing {reaction : List Action} {w : Work} {e : ℕ} (mem : w ∈ reaction.map Work.act) :
    ¬ w.Concerns e := by
  obtain ⟨a, _, rfl⟩ := List.mem_map.mp mem
  exact id

theorem step_known (reaction : List Action) (known : Known s) : Known (step attached s reaction) := by
  refine step_cases (P := Known) s reaction (fun _ => ?_) (fun p type event rest top => ?_) (fun source rest top => ?_)
    (fun c rest top => ?_) (fun w new rest top expands => ?_) (fun c event rest top _ => ?_) (fun w event rest top is => ?_)
    (fun wait event queue rest top waits => ?_)
  case refine_1 =>
    exact ⟨fun w mem e concerns => absurd concerns (acts_concern_nothing mem), known.queue, known.calls, known.drained⟩
  all_goals
    obtain ⟨stack, queue', calls, drained⟩ := known
    rw [top] at stack
  · have grown {e : ℕ} (mem : e ∈ s.published) : e ∈ s.published ++ [event] := List.mem_append_left _ mem
    refine ⟨fun w mem e concerns => ?_, fun e mem => grown (queue' e mem), fun k mem => grown (calls k mem),
      fun e mem => grown (drained e mem)⟩
    rcases List.mem_append.mp mem with new | old
    · rw [← publication_concerns new concerns]
      exact List.mem_append_right _ (List.mem_singleton.mpr rfl)
    · exact grown (stack w (List.mem_cons_of_mem _ old) e concerns)
  · exact ⟨fun w mem => stack w (List.mem_cons_of_mem _ mem), queue', calls, drained⟩
  · exact ⟨fun w mem => stack w (List.mem_cons_of_mem _ mem), queue', calls, drained⟩
  · refine ⟨fun v mem e concerns => ?_, queue', calls, drained⟩
    rcases List.mem_append.mp mem with here | old
    · exact stack w List.mem_cons_self e (expands_concerns expands here concerns)
    · exact stack v (List.mem_cons_of_mem _ old) e concerns
  · refine ⟨fun w mem e concerns => ?_, queue', fun k mem => ?_, drained⟩
    · rcases List.mem_append.mp mem with act | old
      · exact absurd concerns (acts_concern_nothing act)
      · exact stack w (List.mem_cons_of_mem _ old) e concerns
    · rcases List.mem_append.mp mem with old | last
      · exact calls k old
      · cases List.mem_singleton.mp last
        exact stack _ List.mem_cons_self event rfl
  · have published : event ∈ s.published := by
      refine stack w List.mem_cons_self event ?_
      rcases is with rfl | rfl <;> rfl
    refine ⟨fun v mem => stack v (List.mem_cons_of_mem _ mem), fun e mem => ?_, fun k mem => ?_, drained⟩
    · rcases List.mem_append.mp mem with old | last
      · exact queue' e old
      · rwa [List.mem_singleton.mp last]
    · rcases List.mem_append.mp mem with old | last
      · exact calls k old
      · rwa [List.mem_singleton.mp last]
  · rw [waits] at queue'
    refine ⟨fun v mem e concerns => ?_, fun e mem => queue' e (List.mem_cons_of_mem _ mem), calls, fun e mem => ?_⟩
    · rcases List.mem_append.mp mem with work | old
      · rw [← hubWork_concerns work concerns]
        exact queue' event List.mem_cons_self
      · rcases List.mem_cons.mp old with rfl | older
        · exact concerns.elim
        · exact stack v (List.mem_cons_of_mem _ older) e concerns
    · rcases List.mem_append.mp mem with old | last
      · exact drained e old
      · rw [List.mem_singleton.mp last]
        exact queue' event List.mem_cons_self

/-! ### The queue -/

theorem arrived_append (s : State) (k : Slot × ℕ) (t : State) (calls : t.calls = s.calls ++ [k]) :
    t.arrived = s.arrived ++ if k.1 = .queueEvent then [k.2] else [] := by
  unfold State.arrived
  rw [calls, List.filterMap_append]
  by_cases is : k.1 = .queueEvent <;> simp [is]

/-- First in, first out: what has come to the queue has been taken from it or waits. -/
theorem step_fifo (reaction : List Action) (fifo : s.arrived = s.drained ++ s.queue) :
    (step attached s reaction).arrived = (step attached s reaction).drained ++ (step attached s reaction).queue := by
  refine step_cases (P := fun t => t.arrived = t.drained ++ t.queue) s reaction (fun _ => fifo) (fun _ _ _ _ _ => fifo)
    (fun _ _ _ => fifo) (fun _ _ _ => fifo) (fun _ _ _ _ _ => fifo) (fun c event rest _ _ => ?_)
    (fun w event rest _ _ => ?_) (fun wait event queue rest _ waits => ?_)
  · rw [arrived_append s (.handler c, event) _ rfl, if_neg (by simp), List.append_nil]
    exact fifo
  · rw [arrived_append s (.queueEvent, event) _ rfl, if_pos rfl, fifo, List.append_assoc]
  · rw [waits] at fifo
    refine fifo.trans ?_
    simp

/-! ### Calls made and calls due -/

/-- How often a slot is connected to some signals. -/
def countIn (slots : Source → List Slot) (σ : Slot) : List Source → ℕ
  | [] => 0
  | x :: rest => (slots x).count σ + countIn slots σ rest

theorem countIn_only {slots : Source → List Slot} {σ : Slot} {source : Source} (only : Only slots σ source)
    (sources : List Source) : countIn slots σ sources = sources.count source := by
  induction sources with
  | nil => rfl
  | cons x rest ih =>
    rw [countIn, only x, ih, List.count_cons, Nat.add_comm]
    by_cases same : x = source <;> simp [same]

theorem countIn_congr {slots slots' : Source → List Slot} {σ : Slot} (same : ∀ x, (slots' x).count σ = (slots x).count σ)
    (sources : List Source) : countIn slots' σ sources = countIn slots σ sources := by
  induction sources with
  | nil => rfl
  | cons x rest ih => rw [countIn, countIn, same, ih]

variable (attached) in
/-- The calls of a slot that one publication asks for, without those of the queued hub. -/
def asked (slots : Source → List Slot) (σ : Slot) (type : EventType) (p : Publisher) : ℕ :=
  countIn slots σ (raisedBy attached type p) + if Direct attached p ∧ σ = .queueEvent then 1 else 0

/-- The calls of a slot with the event `id` that some work stands for, for the fields
    `type` and `p` of the event. -/
def due (slots : Source → List Slot) (σ : Slot) (id : ℕ) (type : EventType) (p : Publisher) : Work → ℕ
  | .act _ => 0
  | .publish .hub e => if e = id then countIn slots σ (hubSources .hub type p) else 0
  | .publish .queued e => if e = id ∧ σ = .queueEvent then 1 else 0
  | .raise n ty e => if e = id then (slots (.own n ty)).count σ else 0
  | .signal h kind e => if e = id then (slots (kind.source h type p)).count σ else 0
  | .call slot e => if e = id ∧ slot = σ then 1 else 0
  | .drain _ => 0

def dueAll (slots : Source → List Slot) (σ : Slot) (id : ℕ) (type : EventType) (p : Publisher) : List Work → ℕ
  | [] => 0
  | w :: rest => due slots σ id type p w + dueAll slots σ id type p rest

section
variable {σ : Slot} {id : ℕ} {type : EventType} {p : Publisher} {slots slots' : Source → List Slot}

theorem dueAll_append (xs ys : List Work) :
    dueAll slots σ id type p (xs ++ ys) = dueAll slots σ id type p xs + dueAll slots σ id type p ys := by
  induction xs with
  | nil => exact (Nat.zero_add _).symm
  | cons w rest ih => rw [List.cons_append, dueAll, dueAll, ih, Nat.add_assoc]

theorem dueAll_acts (actions : List Action) : dueAll slots σ id type p (actions.map .act) = 0 := by
  induction actions with
  | nil => rfl
  | cons a rest ih => rw [List.map_cons, dueAll, ih, due]

theorem dueAll_slotCalls (source : Source) (event : ℕ) :
    dueAll s.slots σ id type p (slotCalls source event s) = if event = id then (s.slots source).count σ else 0 := by
  unfold slotCalls
  induction s.slots source with
  | nil => simp [dueAll]
  | cons slot rest ih =>
    rw [List.map_cons, dueAll, ih, due, List.count_cons]
    by_cases here : event = id
    · by_cases same : slot = σ <;> simp [here, same, Nat.add_comm]
    · simp [here]

theorem dueAll_hubWork (h : HubRef) (event : ℕ) :
    dueAll slots σ id type p (hubWork h event) = if event = id then countIn slots σ (hubSources h type p) else 0 := by
  simp only [hubWork, dueAll, due, hubSources, countIn, Kind.source]
  by_cases here : event = id <;> simp [here]

theorem dueAll_publication (event : ℕ) :
    dueAll slots σ id type p (publication attached type event p) = if event = id then asked attached slots σ type p else 0 := by
  unfold asked
  cases p with
  | plain n =>
    unfold publication raisedBy Direct
    cases hub : attached n with
    | none => by_cases here : event = id <;> simp [dueAll, due, here, countIn, hub]
    | some h => cases h <;> by_cases here : event = id <;> simp [dueAll, due, here, countIn, hub]
  | hub h =>
    unfold publication raisedBy Direct
    cases h <;> by_cases here : event = id <;> simp [dueAll, due, here, countIn]

theorem dueAll_publication_ne {event : ℕ} (other : event ≠ id) (type' : EventType) (p' : Publisher) :
    dueAll slots σ id type p (publication attached type' event p') = 0 := by
  cases p' with
  | plain n =>
    unfold publication
    cases hub : attached n with
    | none => simp [dueAll, due, other, hub]
    | some h => cases h <;> simp [dueAll, due, other, hub]
  | hub h =>
    unfold publication
    cases h <;> simp [dueAll, due, other]

theorem dueAll_congr (same : ∀ x, (slots' x).count σ = (slots x).count σ) (stack : List Work) :
    dueAll slots' σ id type p stack = dueAll slots σ id type p stack := by
  induction stack with
  | nil => rfl
  | cons w rest ih =>
    rw [dueAll, dueAll, ih]
    congr 1
    cases w with
    | publish h e =>
      cases h with
      | hub => rw [due, due, countIn_congr same]
      | queued => rfl
    | raise n ty e => rw [due, due, same]
    | signal h kind e => rw [due, due, same]
    | _ => rfl

/-- Work that is replaced stands for as many calls as what replaces it, for a slot that is
    not disconnected. -/
theorem expands_due {w : Work} {new : List Work} (expands : Expands s w new) (live : ∀ c, σ = .handler c → s.live c = true)
    (fields : w.Concerns id → s.type id = type ∧ s.sender id = p) :
    dueAll s.slots σ id type p new = due s.slots σ id type p w := by
  cases expands with
  | publishEvents wait => rfl
  | publish event => exact dueAll_hubWork .hub event
  | raise n ty event => exact dueAll_slotCalls _ event
  | signal h kind event =>
    refine (dueAll_slotCalls _ event).trans ?_
    rw [due]
    by_cases here : event = id
    · subst here
      obtain ⟨rfl, rfl⟩ := fields rfl
      rfl
    · rw [if_neg here, if_neg here]
  | dead c event gone =>
    rw [dueAll, due, if_neg]
    rintro ⟨_, rfl⟩
    rw [live c rfl] at gone
    cases gone
  | waiting empty => rfl
  | done empty => rfl

variable (attached σ id type p) in
/-- The calls made and the calls due are what the publications and the queue have asked for. -/
def Balanced (s : State) : Prop :=
  s.calls.count (σ, id) + dueAll s.slots σ id type p s.stack =
    s.published.count id * asked attached s.slots σ type p +
      s.drained.count id * countIn s.slots σ (hubSources .queued type p)

theorem count_called (calls : List (Slot × ℕ)) (τ : Slot) (event : ℕ) :
    (calls ++ [(τ, event)]).count (σ, id) = calls.count (σ, id) + if event = id ∧ τ = σ then 1 else 0 := by
  rw [List.count_append, List.count_singleton]
  by_cases here : event = id ∧ τ = σ
  · obtain ⟨rfl, rfl⟩ := here
    simp
  · have other : ((τ, event) == (σ, id)) = false := by
      rw [beq_eq_false_iff_ne]
      rintro ⟨⟩
      exact here ⟨rfl, rfl⟩
    rw [other, if_neg here]
    rfl

/-- The step lemma, for a slot that is connected before the step and not disconnected by it. -/
theorem step_balanced (reaction : List Action) (known : Known s) (balanced : Balanced attached σ id type p s)
    (old : ∀ c, σ = .handler c → c < s.connections)
    (fields : id ∈ s.published → s.type id = type ∧ s.sender id = p)
    (live : ∀ c, σ = .handler c → (step attached s reaction).live c = true)
    (fields' : id ∈ (step attached s reaction).published →
      (step attached s reaction).type id = type ∧ (step attached s reaction).sender id = p) :
    Balanced attached σ id type p (step attached s reaction) := by
  revert live fields'
  refine step_cases (P := fun t => (∀ c, σ = .handler c → t.live c = true) →
      (id ∈ t.published → t.type id = type ∧ t.sender id = p) → Balanced attached σ id type p t) s reaction
    (fun top _ _ => ?_) (fun p' type' event rest top _ fields' => ?_) (fun source rest top _ _ => ?_)
    (fun c rest top _ _ => ?_) (fun w new rest top expands live _ => ?_) (fun c event rest top _ _ _ => ?_)
    (fun w event rest top is _ _ => ?_) (fun wait event queue rest top waits _ _ => ?_)
  all_goals
    unfold Balanced at balanced ⊢
    rw [top] at balanced
  · rw [dueAll_acts]
    exact balanced
  · rw [dueAll, due, Nat.zero_add] at balanced
    show _ + dueAll s.slots σ id type p (publication attached type' event p' ++ rest) =
      (s.published ++ [event]).count id * _ + _
    rw [dueAll_append, List.count_append, List.count_singleton]
    by_cases here : event = id
    · subst here
      obtain ⟨same, same'⟩ := fields' (by simp)
      have same : type' = type := by simpa using same
      have same' : p' = p := by simpa using same'
      rw [same, same', dueAll_publication, if_pos rfl]
      simp only [beq_self_eq_true, ↓reduceIte, Nat.add_mul, Nat.one_mul]
      omega
    · rw [dueAll_publication_ne here]
      have : (event == id) = false := by simpa using here
      rw [this]
      simpa using balanced
  · rw [dueAll, due, Nat.zero_add] at balanced
    have same : ∀ x, (Function.update s.slots source (s.slots source ++ [.handler s.connections]) x).count σ =
        (s.slots x).count σ := by
      refine count_subscribed_ne (fun is => ?_) source
      exact Nat.lt_irrefl _ (old _ is)
    unfold asked at balanced ⊢
    rw [dueAll_congr same, countIn_congr same, countIn_congr same]
    exact balanced
  · rw [dueAll, due, Nat.zero_add] at balanced
    exact balanced
  · rw [dueAll] at balanced
    show _ + dueAll s.slots σ id type p (new ++ rest) = _
    rw [dueAll_append, expands_due expands live fun concerns =>
      fields (known.stack w (by rw [top]; exact List.mem_cons_self) id concerns)]
    exact balanced
  · rw [dueAll, due] at balanced
    show (s.calls ++ [(Slot.handler c, event)]).count (σ, id) + dueAll s.slots σ id type p (reaction.map .act ++ rest) = _
    rw [dueAll_append, dueAll_acts, count_called, Nat.zero_add, Nat.add_assoc]
    exact balanced
  · have counted : due s.slots σ id type p w = if event = id ∧ Slot.queueEvent = σ then 1 else 0 := by
      rcases is with rfl | rfl
      · rw [due]
        simp only [eq_comm]
      · rfl
    rw [dueAll, counted] at balanced
    show (s.calls ++ [(Slot.queueEvent, event)]).count (σ, id) + dueAll s.slots σ id type p rest = _
    rw [count_called, Nat.add_assoc]
    exact balanced
  · rw [dueAll, due, Nat.zero_add] at balanced
    show _ + dueAll s.slots σ id type p (hubWork .queued event ++ .drain false :: rest) =
      _ + (s.drained ++ [event]).count id * _
    rw [dueAll_append, dueAll_hubWork, dueAll, due, List.count_append, List.count_singleton]
    by_cases here : event = id
    · subst here
      simp only [beq_self_eq_true, ↓reduceIte, Nat.add_mul, Nat.one_mul]
      omega
    · have : (event == id) = false := by simpa using here
      rw [this, if_neg here]
      simpa using balanced

end

/-! ### Runs -/

/-- What stays as it is from a state to a later one. -/
structure Later (s t : State) : Prop where
  published : s.published <+: t.published
  calls : s.calls <+: t.calls
  drained : s.drained <+: t.drained
  slots : ∀ x, s.slots x <+: t.slots x
  connections : s.connections ≤ t.connections
  /-- A connection that is gone does not come back. -/
  live : ∀ c, c < s.connections → t.live c = true → s.live c = true
  /-- An event that is published once keeps its fields. -/
  fields : ∀ e ∈ s.published, t.published.count e ≤ 1 → t.type e = s.type e ∧ t.sender e = s.sender e

theorem Later.refl (s : State) : Later s s where
  published := List.prefix_rfl
  calls := List.prefix_rfl
  drained := List.prefix_rfl
  slots _ := List.prefix_rfl
  connections := Nat.le_refl _
  live _ _ := id
  fields _ _ _ := ⟨rfl, rfl⟩

theorem Later.trans {t u : State} (first : Later s t) (second : Later t u) : Later s u where
  published := first.published.trans second.published
  calls := first.calls.trans second.calls
  drained := first.drained.trans second.drained
  slots x := (first.slots x).trans (second.slots x)
  connections := first.connections.trans second.connections
  live c below is := first.live c below (second.live c (Nat.lt_of_lt_of_le below first.connections) is)
  fields e mem once := by
    have fewer : t.published.count e ≤ 1 := (second.published.sublist.count_le e).trans once
    obtain ⟨type, sender⟩ := second.fields e (first.published.subset mem) once
    obtain ⟨type', sender'⟩ := first.fields e mem fewer
    exact ⟨type.trans type', sender.trans sender'⟩

variable (attached) in
theorem step_later (reaction : List Action) (s : State) : Later s (step attached s reaction) := by
  have quiet (t : State) (published : t.published = s.published) (calls : s.calls <+: t.calls) (drained : s.drained <+: t.drained)
      (slots : t.slots = s.slots) (connections : t.connections = s.connections)
      (live : ∀ c, c < s.connections → t.live c = true → s.live c = true) (type : t.type = s.type)
      (sender : t.sender = s.sender) : Later s t :=
    ⟨published ▸ List.prefix_rfl, calls, drained, fun x => slots ▸ List.prefix_rfl, Nat.le_of_eq connections.symm, live,
      fun e _ _ => by rw [type, sender]; exact ⟨rfl, rfl⟩⟩
  refine step_cases (P := Later s) s reaction (fun _ => ?_) (fun p type event rest _ => ?_) (fun source rest _ => ?_)
    (fun c rest _ => ?_) (fun _ _ _ _ _ => ?_) (fun _ _ _ _ _ => ?_) (fun _ _ _ _ _ => ?_) (fun _ _ _ _ _ _ => ?_)
  case refine_2 =>
    refine { Later.refl s with published := List.prefix_append _ _, fields := fun e mem once => ?_ }
    have other : e ≠ event := by
      rintro rfl
      have := List.count_pos_iff.mpr mem
      rw [List.count_append, List.count_singleton_self] at once
      omega
    simp [other]
  case refine_3 =>
    refine { Later.refl s with
      slots := fun x => ?_, connections := Nat.le_succ _, live := fun c below is => ?_, fields := fun _ _ _ => ⟨rfl, rfl⟩ }
    · by_cases here : x = source
      · subst here
        simp
      · simp [here]
    · have other : c ≠ s.connections := Nat.ne_of_lt below
      simpa [other] using is
  case refine_4 =>
    refine quiet _ rfl List.prefix_rfl List.prefix_rfl rfl rfl (fun k _ is => ?_) rfl rfl
    by_cases same : k = c
    · simp [same] at is
    · simpa [same] using is
  all_goals
    refine quiet _ rfl ?_ ?_ rfl rfl (fun _ _ => id) rfl rfl
    · first | exact List.prefix_rfl | exact List.prefix_append _ _
    · first | exact List.prefix_rfl | exact List.prefix_append _ _

variable (attached) in
theorem after_later (reactions : List (List Action)) (s : State) : Later s (after (step attached) s reactions) := by
  induction reactions generalizing s with
  | nil => exact Later.refl s
  | cons r rest ih => exact (step_later attached r s).trans (ih _)

variable {σ : Slot} {event : ℕ} {type : EventType} {p : Publisher}

/-- Nothing is due for an event that no piece of work concerns. -/
theorem dueAll_done {σ : Slot} {event : ℕ} {type : EventType} {p : Publisher} {slots : Source → List Slot} {stack : List Work}
    (done : ∀ w ∈ stack, ¬ w.Concerns event) : dueAll slots σ event type p stack = 0 := by
  induction stack with
  | nil => rfl
  | cons w rest ih =>
    rw [dueAll, ih fun v mem => done v (List.mem_cons_of_mem _ mem)]
    have apart := done w List.mem_cons_self
    cases w with
    | publish h e =>
      have other : e ≠ event := apart
      cases h <;> simp [due, other]
    | raise n ty e =>
      have other : e ≠ event := apart
      simp [due, other]
    | signal h kind e =>
      have other : e ≠ event := apart
      simp [due, other]
    | call slot e =>
      have other : e ≠ event := apart
      simp [due, other]
    | _ => rfl

/-- Before its publication nothing has been asked for. -/
theorem balanced_of_new (known : Known s) (new : event ∉ s.published) : Balanced attached σ event type p s := by
  have calls : s.calls.count (σ, event) = 0 := List.count_eq_zero.mpr fun mem => new (known.calls _ mem)
  have drained : s.drained.count event = 0 := List.count_eq_zero.mpr fun mem => new (known.drained _ mem)
  have published : s.published.count event = 0 := List.count_eq_zero.mpr new
  unfold Balanced
  rw [calls, drained, published, dueAll_done fun w mem concerns => new (known.stack w mem event concerns)]
  simp

variable (attached) in
/-- The run lemma, for an event that is published at most once and a slot that is not
    disconnected. -/
theorem after_balanced (reactions : List (List Action)) (known : Known s) (balanced : Balanced attached σ event type p s)
    (old : ∀ c, σ = .handler c → c < s.connections)
    (live : ∀ c, σ = .handler c → (after (step attached) s reactions).live c = true)
    (once : (after (step attached) s reactions).published.count event ≤ 1)
    (isType : (after (step attached) s reactions).type event = type)
    (isSender : (after (step attached) s reactions).sender event = p) :
    Balanced attached σ event type p (after (step attached) s reactions) := by
  induction reactions generalizing s with
  | nil => exact balanced
  | cons r rest ih =>
    have first := step_later attached r s
    have rests := after_later attached rest (step attached s r)
    have fields {t : State} (later : Later t (after (step attached) (step attached s r) rest)) (mem : event ∈ t.published) :
        t.type event = type ∧ t.sender event = p := by
      obtain ⟨same, same'⟩ := later.fields event mem once
      exact ⟨same.symm.trans isType, same'.symm.trans isSender⟩
    refine ih (step_known r known) (step_balanced r known balanced old (fields (first.trans rests)) (fun c is => ?_) (fields rests))
      (fun c is => Nat.lt_of_lt_of_le (old c is) first.connections) live once isType isSender
    exact rests.live c (Nat.lt_of_lt_of_le (old c is) first.connections) (live c is)

/-! ### The handlers of the queued hub -/

/-- The hub and the kind of a signal. -/
def Source.kind : Source → Option (HubRef × Kind)
  | .own _ _ => none
  | .byType h _ => some (h, .byType)
  | .byTypePublisher h _ _ => some (h, .byTypePublisher)
  | .all h => some (h, .all)

theorem kind_source (h : HubRef) (type : EventType) (p : Publisher) (kind : Kind) : (kind.source h type p).kind = some (h, kind) := by
  cases kind <;> rfl

/-- The handler `c` has at most one connection, to a signal of the queued hub of this kind. -/
structure OnQueued (slots : Source → List Slot) (c : ℕ) (kind : Kind) : Prop where
  once : ∀ x, (slots x).count (.handler c) ≤ 1
  there : ∀ x, x.kind ≠ some (.queued, kind) → (slots x).count (.handler c) = 0

variable {c : ℕ} {kind : Kind}

theorem OnQueued.before {t : State} (later : Later s t) (on : OnQueued t.slots c kind) : OnQueued s.slots c kind where
  once x := ((later.slots x).sublist.count_le _).trans (on.once x)
  there x other := Nat.eq_zero_of_le_zero (on.there x other ▸ (later.slots x).sublist.count_le _)

/-- The calls of the handler that some work may stand for. -/
def pend (c : ℕ) (kind : Kind) : Work → List ℕ
  | .signal .queued k e => if k = kind then [e] else []
  | .call slot e => if slot = .handler c then [e] else []
  | _ => []

/-- The calls of the slots of a signal, as far as they are calls of the handler. -/
theorem pend_slotCalls (source : Source) (event : ℕ) :
    (slotCalls source event s).flatMap (pend c kind) = List.replicate ((s.slots source).count (.handler c)) event := by
  unfold slotCalls
  induction s.slots source with
  | nil => rfl
  | cons slot rest ih =>
    rw [List.map_cons, List.flatMap_cons, ih, pend, List.count_cons]
    by_cases same : slot = .handler c
    · simp [same, List.replicate_succ]
    · simp [same]

theorem pend_acts (actions : List Action) : (actions.map Work.act).flatMap (pend c kind) = [] := by
  simp [List.flatMap_eq_nil_iff, pend]

theorem pend_publication (type : EventType) (event : ℕ) (p : Publisher) :
    (publication attached type event p).flatMap (pend c kind) = [] := by
  cases p with
  | plain n =>
    unfold publication
    simp [List.flatMap_eq_nil_iff, pend]
  | hub h => rfl

theorem pend_hubWork (event : ℕ) : (hubWork .queued event).flatMap (pend c kind) = [event] := by
  cases kind <;> rfl

/-- Work is replaced by work for fewer calls of the handler. -/
theorem expands_pend {w : Work} {new : List Work} (expands : Expands s w new) (on : OnQueued s.slots c kind) :
    (new.flatMap (pend c kind)).Sublist (pend c kind w) := by
  cases expands with
  | publishEvents wait => exact List.Sublist.refl _
  | publish event => exact List.Sublist.refl _
  | raise p type event =>
    rw [pend_slotCalls, on.there (.own p type) (by simp [Source.kind])]
    exact List.nil_sublist _
  | signal h k event =>
    rw [pend_slotCalls]
    by_cases here : h = .queued ∧ k = kind
    · obtain ⟨rfl, rfl⟩ := here
      have fewer := on.once (k.source .queued (s.type event) (s.sender event))
      simp only [pend, ↓reduceIte]
      exact (List.replicate_sublist_replicate event).mpr fewer
    · rw [on.there _ (by rw [kind_source]; rintro ⟨⟩; exact here ⟨rfl, rfl⟩)]
      exact List.nil_sublist _
  | dead k event gone => exact List.nil_sublist _
  | waiting empty => exact List.Sublist.refl _
  | done empty => exact List.nil_sublist _

/-- Above a call of the handler a loop of `publishEvents` is going on. -/
def Above (c : ℕ) (kind : Kind) : List Work → Prop
  | [] => True
  | w :: rest => (pend c kind w ≠ [] → ∃ wait, .drain wait ∈ rest) ∧ Above c kind rest

theorem Above.append {new rest : List Work} (above : Above c kind rest)
    (drains : new.flatMap (pend c kind) ≠ [] → ∃ wait, .drain wait ∈ rest) : Above c kind (new ++ rest) := by
  induction new with
  | nil => exact above
  | cons w more ih =>
    rw [List.flatMap_cons] at drains
    refine ⟨fun some => ?_, ih fun some => drains ?_⟩
    · obtain ⟨wait, mem⟩ := drains (by simp [some])
      exact ⟨wait, List.mem_append_right _ mem⟩
    · intro none
      exact some (List.append_eq_nil_iff.mp none).2

theorem Above.cons {w : Work} {rest : List Work} (above : Above c kind rest) (none : pend c kind w = []) :
    Above c kind (w :: rest) := ⟨fun some => absurd none some, above⟩

variable (attached) in
theorem step_above (reaction : List Action) (on : OnQueued s.slots c kind) (above : Above c kind s.stack) :
    Above c kind (step attached s reaction).stack := by
  refine step_cases (P := fun t => Above c kind t.stack) s reaction (fun _ => ?_) (fun p type event rest top => ?_)
    (fun source rest top => ?_) (fun k rest top => ?_) (fun w new rest top expands => ?_) (fun k event rest top _ => ?_)
    (fun w event rest top _ => ?_) (fun wait event queue rest top _ => ?_)
  · have nothing : Above c kind (reaction.map Work.act ++ []) := Above.append trivial fun some => absurd (pend_acts reaction) some
    rwa [List.append_nil] at nothing
  all_goals
    rw [top] at above
    obtain ⟨first, above⟩ := above
  · exact above.append fun some => absurd (pend_publication type event p) some
  · exact above
  · exact above
  · refine above.append fun some => first fun none => some ?_
    have fewer := expands_pend expands on
    rw [none] at fewer
    exact List.sublist_nil.mp fewer
  · exact above.append fun some => absurd (pend_acts reaction) some
  · exact above
  · exact (above.cons rfl).append fun _ => ⟨false, List.mem_cons_self⟩

/-- What holds in every state of every run. -/
structure Sound (s : State) : Prop where
  wired : Wired s
  known : Known s
  fifo : s.arrived = s.drained ++ s.queue
  loops : ∀ c kind, OnQueued s.slots c kind → Above c kind s.stack

theorem initial_known : Known initial where
  stack _ mem := by cases mem
  queue _ mem := by cases mem
  calls _ mem := by cases mem
  drained _ mem := by cases mem

theorem initial_sound : Sound initial := ⟨initial_wired, initial_known, rfl, fun _ _ _ => trivial⟩

variable (attached) in
theorem step_sound (reaction : List Action) (sound : Sound s) : Sound (step attached s reaction) where
  wired := step_wired reaction sound.wired
  known := step_known reaction sound.known
  fifo := step_fifo reaction sound.fifo
  loops c kind on :=
    have before := on.before (step_later attached reaction s)
    step_above attached reaction before (sound.loops c kind before)

variable (attached) in
theorem after_sound (reactions : List (List Action)) (sound : Sound s) : Sound (after (step attached) s reactions) := by
  induction reactions generalizing s with
  | nil => exact sound
  | cons r rest ih => exact ih (step_sound attached r sound)

/-- `publishEvents` is called from inside a handler of the queued hub. -/
def Reenters (s : State) : Prop := ∃ wait wait' rest, s.stack = .act (.publishEvents wait) :: rest ∧ .drain wait' ∈ rest

/-- The loops of `publishEvents` that are going on. -/
def loops : List Work → ℕ
  | [] => 0
  | .drain _ :: rest => loops rest + 1
  | _ :: rest => loops rest

theorem loops_append (xs ys : List Work) : loops (xs ++ ys) = loops xs + loops ys := by
  induction xs with
  | nil => exact (Nat.zero_add _).symm
  | cons w rest ih =>
    cases w with
    | drain wait =>
      show loops (rest ++ ys) + 1 = loops rest + 1 + loops ys
      omega
    | _ => exact ih

theorem loops_map {α : Type} (f : α → Work) (plain : ∀ x wait, f x ≠ .drain wait) (xs : List α) : loops (xs.map f) = 0 := by
  induction xs with
  | nil => rfl
  | cons x rest ih =>
    rw [List.map_cons]
    cases value : f x with
    | drain wait => exact absurd value (plain x wait)
    | _ => exact ih

theorem loops_acts (actions : List Action) : loops (actions.map .act) = 0 :=
  loops_map _ (fun _ _ is => by cases is) actions

theorem loops_publication (type : EventType) (event : ℕ) (p : Publisher) : loops (publication attached type event p) = 0 := by
  cases p with
  | plain n => exact loops_map _ (fun _ _ is => by cases is) (attached n).toList
  | hub h => rfl

theorem loops_eq_zero {stack : List Work} (none : loops stack = 0) (wait : Bool) : .drain wait ∉ stack := by
  intro mem
  induction stack with
  | nil => cases mem
  | cons w rest ih =>
    rcases List.mem_cons.mp mem with rfl | later
    · cases none
    · refine ih ?_ later
      cases w with
      | drain wait => cases none
      | _ => exact none

theorem loops_of_not_mem {stack : List Work} (none : ∀ wait, .drain wait ∉ stack) : loops stack = 0 := by
  induction stack with
  | nil => rfl
  | cons w rest ih =>
    have later := ih fun wait mem => none wait (List.mem_cons_of_mem _ mem)
    cases w with
    | drain wait => exact absurd List.mem_cons_self (none wait)
    | _ => exact later

theorem expands_loops {w : Work} {new : List Work} (expands : Expands s w new)
    (plain : ∀ wait, w ≠ .act (.publishEvents wait)) : loops new ≤ loops [w] := by
  cases expands with
  | publishEvents wait => exact absurd rfl (plain wait)
  | publish event => exact Nat.le_refl _
  | raise p type event => exact Nat.le_of_eq (loops_map _ (fun _ _ is => by cases is) _)
  | signal h k event => exact Nat.le_of_eq (loops_map _ (fun _ _ is => by cases is) _)
  | dead k event gone => exact Nat.le_refl _
  | waiting empty => exact Nat.le_refl _
  | done empty => exact Nat.zero_le _

/-- With no loop going on no call of the handler is due. -/
theorem Above.none {stack : List Work} (above : Above c kind stack) (idle : ∀ wait, .drain wait ∉ stack) :
    stack.flatMap (pend c kind) = [] := by
  induction stack with
  | nil => rfl
  | cons w rest ih =>
    obtain ⟨first, later⟩ := above
    have calm : ∀ wait, .drain wait ∉ rest := fun wait mem => idle wait (List.mem_cons_of_mem _ mem)
    rw [List.flatMap_cons, ih later calm, List.append_nil]
    by_contra some
    obtain ⟨wait, mem⟩ := first some
    exact calm wait mem

/-- The handler has been called, and will be, with events in the order in which they were
    taken from the queue. -/
structure Ordered (c : ℕ) (kind : Kind) (s : State) : Prop where
  above : Above c kind s.stack
  single : loops s.stack ≤ 1
  order : (s.callsOf c ++ s.stack.flatMap (pend c kind)).Sublist s.drained

theorem callsOf_append (k : Slot × ℕ) (t : State) (calls : t.calls = s.calls ++ [k]) :
    t.callsOf c = s.callsOf c ++ if k.1 = .handler c then [k.2] else [] := by
  unfold State.callsOf
  rw [calls, List.filterMap_append]
  by_cases is : k.1 = .handler c <;> simp [is]

theorem step_ordered (reaction : List Action) (on : OnQueued s.slots c kind) (calm : ¬ Reenters s)
    (ordered : Ordered c kind s) : Ordered c kind (step attached s reaction) := by
  have above := step_above attached reaction on ordered.above
  suffices rest : loops (step attached s reaction).stack ≤ 1 ∧
      ((step attached s reaction).callsOf c ++ (step attached s reaction).stack.flatMap (pend c kind)).Sublist
        (step attached s reaction).drained from ⟨above, rest.1, rest.2⟩
  obtain ⟨waiting, single, order⟩ := ordered
  refine step_cases (P := fun t => loops t.stack ≤ 1 ∧ (t.callsOf c ++ t.stack.flatMap (pend c kind)).Sublist t.drained) s
    reaction (fun top => ?_) (fun p type event rest top => ?_)
    (fun source rest top => ?_) (fun k rest top => ?_) (fun w new rest top expands => ?_) (fun k event rest top _ => ?_)
    (fun w event rest top is => ?_) (fun wait event queue rest top _ => ?_)
  all_goals
    rw [top] at single order waiting
  · dsimp only
    rw [loops_acts, pend_acts]
    exact ⟨Nat.zero_le _, order⟩
  · dsimp only
    rw [loops_append, loops_publication, Nat.zero_add, List.flatMap_append, pend_publication, List.nil_append]
    exact ⟨single, order⟩
  · exact ⟨single, order⟩
  · exact ⟨single, order⟩
  · dsimp only
    refine ⟨?_, ?_⟩
    · rw [loops_append]
      by_cases starts : ∃ wait, w = .act (.publishEvents wait)
      · obtain ⟨wait, rfl⟩ := starts
        cases expands
        have idle : loops rest = 0 := loops_of_not_mem fun wait' mem => calm ⟨wait, wait', rest, top, mem⟩
        rw [idle]
        exact Nat.le_refl 1
      · have fewer := expands_loops expands fun wait is => starts ⟨wait, is⟩
        have whole := loops_append [w] rest
        rw [List.singleton_append] at whole
        omega
    · rw [List.flatMap_append]
      refine List.Sublist.trans ?_ order
      rw [List.flatMap_cons]
      exact (List.Sublist.refl _).append ((expands_pend expands on).append (List.Sublist.refl _))
  · dsimp only
    rw [loops_append, loops_acts, Nat.zero_add, List.flatMap_append, pend_acts, List.nil_append]
    refine ⟨single, ?_⟩
    rw [callsOf_append (.handler k, event) _ rfl]
    rw [List.flatMap_cons, pend, ← List.append_assoc] at order
    exact order
  · dsimp only
    have same : loops (w :: rest) = loops rest := by
      rcases is with rfl | rfl <;> rfl
    have none : pend c kind w = [] := by
      rcases is with rfl | rfl
      · rfl
      · simp [pend]
    rw [same] at single
    rw [List.flatMap_cons, none, List.nil_append] at order
    rw [callsOf_append (.queueEvent, event) _ rfl, if_neg (by simp), List.append_nil]
    exact ⟨single, order⟩
  · dsimp only
    have idle : loops rest = 0 := by
      have : loops rest + 1 ≤ 1 := single
      omega
    have nothing : rest.flatMap (pend c kind) = [] := waiting.2.none (loops_eq_zero idle)
    refine ⟨?_, ?_⟩
    · rw [loops_append]
      show 0 + (loops rest + 1) ≤ 1
      omega
    · rw [List.flatMap_append, pend_hubWork, List.flatMap_cons, nothing]
      have none : pend c kind (.drain wait) = [] := rfl
      rw [List.flatMap_cons, nothing, none, List.append_nil, List.append_nil] at order
      exact order.append (List.Sublist.refl _)

theorem after_ordered (reactions : List (List Action)) (on : OnQueued (after (step attached) s reactions).slots c kind)
    (calm : Each (step attached) (fun t _ => ¬ Reenters t) s reactions) (ordered : Ordered c kind s) :
    Ordered c kind (after (step attached) s reactions) := by
  induction reactions generalizing s with
  | nil => exact ordered
  | cons r rest ih =>
    exact ih on calm.2 (step_ordered r (on.before (after_later attached (r :: rest) s)) calm.1 ordered)

end

/-! ### What the hubs deliver -/

/-- The event comes to the queue: its publisher hands it to the queued hub, or to the hub. -/
def Reaches (attached : ℕ → Option HubRef) (type : EventType) (p : Publisher) : Prop :=
  Direct attached p ∨ .all .hub ∈ raisedBy attached type p

instance reachesDecidable (attached : ℕ → Option HubRef) (type : EventType) (p : Publisher) :
    Decidable (Reaches attached type p) := inferInstanceAs (Decidable (_ ∨ _))

/-- An event is published once between the states `s` and `t`, and nothing is still to be
    done with it but to take it from the queue. -/
structure Published (s t : State) (event : ℕ) : Prop where
  new : event ∉ s.published
  once : t.published.count event = 1
  done : ∀ w ∈ t.stack, ¬ w.Concerns event

/-- What has been delivered between a state `s` of a run and a later one `t`. -/
structure Delivers (attached : ℕ → Option HubRef) (s t : State) : Prop where
  /-- A handler subscribed in `s` and not disconnected: the publisher and the hub call it
      once when the event goes to its signal, and else not. -/
  direct : ∀ c source event, .handler c ∈ s.slots source → t.live c = true → Published s t event →
    (∀ kind, source.kind ≠ some (.queued, kind)) →
    t.calls.count (.handler c, event) = if source ∈ raisedBy attached (t.type event) (t.sender event) then 1 else 0
  /-- A handler of the queued hub is called once when the event has been taken from the
      queue and goes to its signal. -/
  queued : ∀ c source event, .handler c ∈ s.slots source → t.live c = true → Published s t event →
    (∃ kind, source.kind = some (.queued, kind)) →
    t.calls.count (.handler c, event) =
      if source ∈ hubSources .queued (t.type event) (t.sender event) then t.drained.count event else 0
  /-- The event has come to the queue once when it goes to one of the hubs. -/
  arrives : ∀ event, Published s t event →
    t.arrived.count event = if Reaches attached (t.type event) (t.sender event) then 1 else 0
  /-- A disconnected handler is not called any more. -/
  gone : ∀ c, c < s.connections → s.live c = false → t.callsOf c = s.callsOf c
  /-- Events are taken from the queue in the order in which they came to it. -/
  fifo : t.arrived = t.drained ++ t.queue
  /-- What had come to the queue is in front of what comes later. -/
  later : s.arrived <+: t.arrived
  /-- The handlers of the queued hub are called from inside `publishEvents` only. -/
  fromLoop : ∀ c source kind, .handler c ∈ t.slots source → source.kind = some (.queued, kind) → ∀ event rest,
    t.stack = .call (.handler c) event :: rest → ∃ wait, .drain wait ∈ rest

section
variable {attached : ℕ → Option HubRef} {s t : State}

/-- The signal of a connection. -/
theorem only_of_mem (wired : Wired s) {c : ℕ} {source : Source} (mem : .handler c ∈ s.slots source) :
    c < s.connections ∧ Only s.slots (.handler c) source := by
  have some := List.count_pos_iff.mpr mem
  have below : c < s.connections := by
    by_contra above
    exact absurd (wired.fresh c (Nat.le_of_not_lt above) source) (Nat.ne_of_gt some)
  obtain ⟨there, only⟩ := wired.once c below
  have same : source = there := by
    by_contra other
    rw [only source, if_neg other] at some
    exact Nat.lt_irrefl 0 some
  exact ⟨below, same ▸ only⟩

theorem onQueued_of_only {c : ℕ} {source : Source} {kind : Kind} (only : Only s.slots (.handler c) source)
    (is : source.kind = some (.queued, kind)) : OnQueued s.slots c kind := by
  refine ⟨fun x => ?_, fun x other => ?_⟩
  · rw [only x]
    split
    · exact Nat.le_refl 1
    · exact Nat.zero_le 1
  · rw [only x, if_neg]
    rintro rfl
    exact other is

/-- The calls of a slot that stays connected, once all is done. -/
theorem calls_count (reactions : List (List Action)) (sound : Sound s) (ends : after (step attached) s reactions = t) {σ : Slot}
    {source : Source} {event : ℕ} (old : ∀ c, σ = .handler c → c < s.connections ∧ t.live c = true)
    (only : Only t.slots σ source) (published : Published s t event) :
    t.calls.count (σ, event) = asked attached t.slots σ (t.type event) (t.sender event) +
      t.drained.count event * (hubSources .queued (t.type event) (t.sender event)).count source := by
  subst ends
  have balanced := after_balanced attached reactions sound.known
    (balanced_of_new sound.known published.new) (fun c is => (old c is).1) (fun c is => (old c is).2)
    (Nat.le_of_eq published.once) rfl rfl
  unfold Balanced at balanced
  rw [dueAll_done published.done, published.once, countIn_only only, Nat.add_zero, Nat.one_mul] at balanced
  exact balanced

theorem hubSources_nodup (h : HubRef) (type : EventType) (p : Publisher) : (hubSources h type p).Nodup := by
  simp [hubSources]

theorem raisedBy_nodup (attached : ℕ → Option HubRef) (type : EventType) (p : Publisher) : (raisedBy attached type p).Nodup := by
  cases p with
  | plain n =>
    unfold raisedBy
    by_cases hub : attached n = some .hub <;> simp [hub, hubSources]
  | hub h => cases h <;> simp [raisedBy, hubSources]

theorem count_nodup {sources : List Source} (nodup : sources.Nodup) (source : Source) :
    sources.count source = if source ∈ sources then 1 else 0 := by
  split
  case isTrue mem => exact List.count_eq_one_of_mem nodup mem
  case isFalse absent => exact List.count_eq_zero.mpr absent

/-- The publisher and the hub raise no signal of the queued hub, and the queued hub no other. -/
theorem kind_of_raised {type : EventType} {p : Publisher} {source : Source} {kind : Kind}
    (mem : source ∈ raisedBy attached type p) : source.kind ≠ some (.queued, kind) := by
  have hub : ∀ {q : Publisher}, source ∈ hubSources .hub type q → source.kind ≠ some (.queued, kind) := by
    intro q there
    simp only [hubSources, List.mem_cons, List.not_mem_nil, or_false] at there
    rcases there with rfl | rfl | rfl <;> simp [Source.kind]
  cases p with
  | plain n =>
    unfold raisedBy at mem
    rcases List.mem_cons.mp mem with rfl | later
    · simp [Source.kind]
    · split at later
      · exact hub later
      · cases later
  | hub h =>
    cases h with
    | hub => exact hub mem
    | queued => cases mem

theorem kind_of_queued {type : EventType} {p : Publisher} {source : Source} (mem : source ∈ hubSources .queued type p) :
    ∃ kind, source.kind = some (.queued, kind) := by
  simp only [hubSources, List.mem_cons, List.not_mem_nil, or_false] at mem
  rcases mem with rfl | rfl | rfl
  · exact ⟨.byType, rfl⟩
  · exact ⟨.byTypePublisher, rfl⟩
  · exact ⟨.all, rfl⟩

theorem count_arrived (s : State) (event : ℕ) : s.arrived.count event = s.calls.count (.queueEvent, event) := by
  unfold State.arrived
  induction s.calls with
  | nil => rfl
  | cons k rest ih =>
    rw [List.count_cons, ← ih]
    obtain ⟨slot, e⟩ := k
    cases slot with
    | handler c => simp
    | queueEvent => by_cases same : e = event <;> simp [same]

variable (attached) in
/-- A disconnected handler is not called. -/
theorem after_gone (reactions : List (List Action)) {c : ℕ} (below : c < s.connections) (dead : s.live c = false) :
    (after (step attached) s reactions).callsOf c = s.callsOf c := by
  induction reactions generalizing s with
  | nil => rfl
  | cons r rest ih =>
    have later := step_later attached r s
    have still : (step attached s r).live c = false := by
      by_contra live
      rw [later.live c below (by simpa using live)] at dead
      cases dead
    refine (ih (Nat.lt_of_lt_of_le below later.connections) still).trans ?_
    refine step_cases (P := fun t => t.callsOf c = s.callsOf c) s r (fun _ => rfl) (fun _ _ _ _ _ => rfl)
      (fun _ _ _ => rfl) (fun _ _ _ => rfl) (fun _ _ _ _ _ => rfl) (fun k event rest _ live => ?_)
      (fun w event rest _ _ => ?_) (fun _ _ _ _ _ _ => rfl)
    · have other : k ≠ c := by
        rintro rfl
        rw [dead] at live
        cases live
      rw [callsOf_append (.handler k, event) _ rfl, if_neg (by simpa using other), List.append_nil]
    · rw [callsOf_append (.queueEvent, event) _ rfl, if_neg (by simp), List.append_nil]

theorem after_delivers (reactions : List (List Action)) (sound : Sound s) :
    Delivers attached s (after (step attached) s reactions) := by
  have ended := after_sound attached reactions sound
  have later := after_later attached reactions s
  have gone (c : ℕ) (below : c < s.connections) (dead : s.live c = false) := after_gone attached reactions below dead
  generalize ends : after (step attached) s reactions = t at ended later gone
  have connected {c : ℕ} {source : Source} (mem : .handler c ∈ s.slots source) (live : t.live c = true) :
      (∀ k, Slot.handler c = .handler k → k < s.connections ∧ t.live k = true) ∧ Only t.slots (.handler c) source := by
    refine ⟨?_, (only_of_mem ended.wired ((later.slots source).subset mem)).2⟩
    rintro k ⟨⟩
    exact ⟨(only_of_mem sound.wired mem).1, live⟩
  constructor
  case direct =>
    intro c source event mem live published plain
    obtain ⟨old, only⟩ := connected mem live
    have absent : source ∉ hubSources .queued (t.type event) (t.sender event) := by
      intro there
      obtain ⟨kind, is⟩ := kind_of_queued there
      exact plain kind is
    rw [calls_count reactions sound ends old only published, asked, countIn_only only, count_nodup (raisedBy_nodup _ _ _),
      List.count_eq_zero.mpr absent]
    simp
  case queued =>
    intro c source event mem live published is
    obtain ⟨old, only⟩ := connected mem live
    obtain ⟨kind, is⟩ := is
    have absent : source ∉ raisedBy attached (t.type event) (t.sender event) := fun there => kind_of_raised there is
    rw [calls_count reactions sound ends old only published, asked, countIn_only only, count_nodup (hubSources_nodup _ _ _),
      List.count_eq_zero.mpr absent]
    simp
  case arrives =>
    intro event published
    have absent : Source.all .hub ∉ hubSources .queued (t.type event) (t.sender event) := by simp [hubSources]
    rw [count_arrived, calls_count reactions sound ends (fun c is => by cases is) ended.wired.queue published, asked,
      countIn_only ended.wired.queue, count_nodup (raisedBy_nodup _ _ _), List.count_eq_zero.mpr absent]
    -- A publisher that hands its events to the queued hub raises no signal of the hub.
    have either : Direct attached (t.sender event) → Source.all .hub ∉ raisedBy attached (t.type event) (t.sender event) := by
      cases t.sender event with
      | plain n =>
        intro direct
        have other : attached n ≠ some .hub := by
          rw [show attached n = some .queued from direct]
          simp
        simp [raisedBy, other]
      | hub h =>
        intro direct
        cases show h = .queued from direct
        simp [raisedBy]
    unfold Reaches
    by_cases direct : Direct attached (t.sender event)
    · simp [direct, either direct]
    · simp [direct]
  case gone => exact gone
  case fifo => exact ended.fifo
  case later => exact later.calls.filterMap _
  case fromLoop =>
    intro c source kind mem is event rest top
    have above := ended.loops c kind (onQueued_of_only (only_of_mem ended.wired mem).2 is)
    rw [top] at above
    exact above.1 (by simp [pend])

end

/-- A handler of a publisher answers one event with another, before the hub has the first. -/
def nested : List (List Action) :=
  [[.subscribe (.own 0 "A"), .publish (.plain 0) "A" 0, .publishEvents false], [], [], [], [.publish (.plain 0) "B" 1]] ++
    List.replicate 30 []

end Tortuga.EventHub
