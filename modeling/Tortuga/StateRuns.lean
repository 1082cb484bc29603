import Tortuga.StateMachine

/-!
What is kept of every machine by every command, function and event (`state.py`), and from it what
a machine is subscribed to and which of its states have been left.
-/
namespace Tortuga.StateRuns
open Tortuga.Raising Tortuga.Machines Tortuga.StateMachine

/-! ### What is kept of a machine -/

section
variable {S E V : Type} {t : World S E} {m m' : Machine S E} {id : ℕ}

@[simp] theorem put_count : (t.put id m).count = t.count := rfl
@[simp] theorem put_same : (t.put id m).machines id = m := by
  simp [World.put]

theorem put_other {i : ℕ} (other : i ≠ id) : (t.put id m).machines i = t.machines i := by
  simp [World.put, other]

@[simp] theorem put_put : (t.put id m).put id m' = t.put id m' := by
  simp [World.put]

/-- The two machines are in one state, with one past. -/
structure Alike (m m' : Machine S E) : Prop where
  current : m'.current = m.current
  connections : m'.connections = m.connections
  log : m'.log = m.log

/-- The machine with more subscriptions. -/
def subscribed (m : Machine S E) (types : List E) : Machine S E := { m with connections := m.connections ++ types }

/-- The machine with a new current state. -/
def entered (m : Machine S E) (s : S) : Machine S E := { m with current := some s, log := m.log ++ [.entered s] }

/-- The machine without its current state. -/
def left (m : Machine S E) : Machine S E :=
  { m with connections := [], current := none, log := m.log ++ m.current.toList.map .exited }

theorem subscribed_subscribed (done more : List E) : subscribed (subscribed m done) more = subscribed m (done ++ more) := by
  rw [subscribed, subscribed, subscribed, List.append_assoc]

@[simp] theorem subscribed_nil : subscribed m [] = m := by
  rw [subscribed, List.append_nil]

/-- A property `T` of machines is kept by each thing that can happen to one. `Enters` is what a
    machine needs for it when a state is entered. -/
structure Kept (D : Description S E V) (T Enters : Machine S E → Prop) : Prop where
  fresh : T .fresh
  alike : ∀ m m', Alike m m' → T m → T m'
  entersAlike : ∀ m m', Alike m m' → Enters m → Enters m'
  idle : ∀ m, m.current = none → Enters m
  leave : ∀ m, T m → T (left m)
  refuse : ∀ m s done type rest, D.hub = true → D.events s = done ++ type :: rest → D.isFunction type = true →
    T m → Enters m → T (subscribed m done)
  enter : ∀ m s, T m → Enters m → T (entered (subscribed m (if D.hub then D.events s else [])) s)

/-- Every machine has the property, there are `n` machines at least, and the branches are among them. -/
structure Holds (T : Machine S E → Prop) (n : ℕ) (t : World S E) : Prop where
  count : n ≤ t.count
  all : ∀ i, T (t.machines i)
  branches : ∀ i, ∀ p ∈ (t.machines i).branches, p.2 < t.count

variable {T Enters : Machine S E → Prop} {n : ℕ}

theorem Holds.put (holds : Holds T n t) (good : T m) (branches : ∀ p ∈ m.branches, p.2 < t.count) :
    Holds T n (t.put id m) where
  count := holds.count
  all i := by
    by_cases same : i = id
    · rw [same, put_same]
      exact good
    · rw [put_other same]
      exact holds.all i
  branches i p member := by
    by_cases same : i = id
    · rw [same, put_same] at member
      exact branches p member
    · rw [put_other same] at member
      exact holds.branches i p member

theorem Holds.fewer {k : ℕ} (holds : Holds T n t) (fewer : k ≤ n) : Holds T k t :=
  ⟨Nat.le_trans fewer holds.count, holds.all, holds.branches⟩

end

/-! ### Programs that keep it -/

section
variable {S E V α β : Type} {T Enters : Machine S E → Prop} {D : Description S E V} {n id : ℕ}

/-- Whatever the program does, by return or by an exception, the property is kept. -/
def Keeps (T : Machine S E → Prop) (f : Io S E α) : Prop :=
  ∀ n, Leads (Holds T n) f (fun _ => Holds T n) (Holds T n)

theorem Keeps.bind {f : Io S E α} {g : α → Io S E β} (first : Keeps T f) (rest : ∀ a, Keeps T (g a)) : Keeps T (f >>= g) :=
  fun n => (first n).bind fun a => rest a n

theorem Keeps.pure (a : α) : Keeps T (pure a : Io S E α) := fun _ => .pure a fun _ holds => holds

theorem Keeps.throw (e : Error) : Keeps T (throw e : Io S E α) := fun _ => .throw e fun _ holds => holds

theorem Keeps.ite {c : Prop} [Decidable c] {f g : Io S E α} (yes : Keeps T f) (no : Keeps T g) : Keeps T (if c then f else g) :=
  fun n => .ite (fun _ => yes n) (fun _ => no n)

theorem leads_machine {P R : World S E → Prop} :
    Leads P (machine id : Io S E (Machine S E)) (fun m t => m = t.machines id ∧ P t) R := by
  rw [machine]
  refine Leads.get.bind fun t => .pure _ ?_
  rintro u ⟨rfl, holds⟩
  exact ⟨rfl, holds⟩

/-- A machine that is read may be any. -/
theorem keeps_machine : Keeps T (machine id : Io S E (Machine S E)) :=
  fun _ => leads_machine.weaken (fun _ now => now) (fun _ _ known => known.2) (fun _ now => now)

theorem keeps_number : Keeps T (number : Io S E ℕ) := by
  intro n
  have counted : Leads (Holds T n) (modify fun t => { t with calls := t.calls + 1 } : Io S E Unit)
      (fun _ => Holds T n) (Holds T n) :=
    .modify _ fun t holds => ⟨holds.count, holds.all, holds.branches⟩
  exact Leads.get.bind fun t => (counted.weaken (fun _ known => known.2) (fun _ _ now => now) (fun _ now => now)).bind
    fun _ => .pure _ fun _ now => now

theorem keeps_update {f : Machine S E → Machine S E} (good : ∀ m, T m → T (f m)) (less : ∀ m, (f m).branches ⊆ m.branches) :
    Keeps T (update id f) :=
  fun _ => .modify _ fun t holds =>
    holds.put (good _ (holds.all id)) fun p member => holds.branches id p (less (t.machines id) member)

theorem Kept.change (kept : Kept D T Enters) {f : Machine S E → Machine S E} (alike : ∀ m, Alike m (f m))
    (less : ∀ m, (f m).branches ⊆ m.branches) : Keeps T (update id f) :=
  keeps_update (fun m good => kept.alike m (f m) (alike m) good) less

/-! ### Commands -/

/-- What commands for other machines keep. -/
structure Safe (T Enters : Machine S E → Prop) (rec : ℕ → Cmd S → Io S E Unit) : Prop where
  start : ∀ n id s, Leads (fun t => Holds T n t ∧ Enters (t.machines id)) (rec id (.start s)) (fun _ => Holds T n) (Holds T n)
  stop : ∀ id, Keeps T (rec id .stop)

variable {rec : ℕ → Cmd S → Io S E Unit}

/-- A new machine is among those there are from now on, and a state may be entered with it. -/
theorem Kept.create (kept : Kept D T Enters) :
    Leads (Holds T n) (create : Io S E ℕ)
      (fun b t => n ≤ b ∧ (Holds T (b + 1) t ∧ Enters (t.machines b))) (Holds T n) := by
  refine ⟨?_, ?_⟩
  · rintro t b u holds run
    cases run
    have added : Holds T n (t.put t.count .fresh) := holds.put kept.fresh (fun p member => by cases member)
    refine ⟨holds.count, ⟨Nat.le_refl _, added.all, ?_⟩, ?_⟩
    · intro i p member
      exact Nat.lt_succ_of_lt (added.branches i p member)
    · show Enters ((t.put t.count .fresh).machines t.count)
      rw [put_same]
      exact kept.idle _ rfl
  · intro t e u _ run
    cases run

theorem Safe.stopAll (safe : Safe T Enters rec) (branches : List (S × ℕ)) :
    Keeps T (stopAll rec branches : Io S E Unit) := by
  induction branches with
  | nil => exact .pure ()
  | cons branch rest ih => exact (safe.stop branch.2).bind fun _ => ih

/-- The subscriptions of a state are all made, or those are left that come before a method. -/
theorem subscribe_leads (t : World S E) (all done rest : List E) (parts : all = done ++ rest) :
    Leads (· = t.put id (subscribed (t.machines id) done)) (subscribe id D rest)
      (fun _ u => u = t.put id (subscribed (t.machines id) all))
      (fun u => ∃ before type behind, all = before ++ type :: behind ∧ D.isFunction type = true ∧
        u = t.put id (subscribed (t.machines id) before)) := by
  induction rest generalizing done with
  | nil =>
    rw [List.append_nil] at parts
    cases parts
    exact .pure () fun _ now => now
  | cons type rest ih =>
    refine .ite (fun function => .throw _ ?_) fun _ => ?_
    · rintro u rfl
      exact ⟨done, type, rest, parts, function, rfl⟩
    · have more : all = (done ++ [type]) ++ rest := by rw [parts, List.append_assoc, List.singleton_append]
      refine Leads.bind (.modify _ ?_) fun _ => ih (done ++ [type]) more
      rintro u rfl
      show World.put (t.put id (subscribed (t.machines id) done)) id (subscribed ((t.put id _).machines id) [type]) = _
      rw [put_same, put_put, subscribed_subscribed]

theorem Kept.subscribeAll (kept : Kept D T Enters) (s : S) :
    Leads (fun t => Holds T n t ∧ Enters (t.machines id)) (subscribeAll id D s)
      (fun _ u => ∃ t, (Holds T n t ∧ Enters (t.machines id)) ∧
        u = t.put id (subscribed (t.machines id) (if D.hub then D.events s else [])))
      (Holds T n) := by
  rw [StateMachine.subscribeAll]
  by_cases hub : D.hub = true
  · rw [if_pos hub, if_pos hub]
    refine ⟨fun t a u start run => ?_, fun t e u start run => ?_⟩
    · have now : t = t.put id (subscribed (t.machines id) []) := by simp [World.put]
      exact ⟨t, start, (subscribe_leads t (D.events s) [] _ rfl).returns t a u now run⟩
    · have now : t = t.put id (subscribed (t.machines id) []) := by simp [World.put]
      obtain ⟨before, type, behind, parts, function, rfl⟩ :=
        (subscribe_leads t (D.events s) [] _ rfl).raises t e u now run
      exact start.1.put (kept.refuse _ s before type behind hub parts function (start.1.all id) start.2)
        (start.1.branches id)
  · rw [if_neg hub, if_neg hub]
    exact .pure () fun t start => ⟨t, start, by simp [World.put]⟩

variable [DecidableEq S]

theorem Kept.branchToState (kept : Kept D T Enters) (safe : Safe T Enters rec) (q : S) (event : Option ℕ) :
    Keeps T (branchToState rec id q event) := by
  rw [StateMachine.branchToState]
  refine keeps_machine.bind fun m => .ite (.throw _) fun n => ?_
  refine kept.create.bind fun b => .fact fun more => ?_
  refine ((safe.start (b + 1) b q).weaken (fun _ known => known) (fun _ _ now => now) (fun t now => ?_)).bind fun _ => ?_
  · exact now.fewer (Nat.le_succ_of_le more)
  · have previous : Keeps T (update b fun m => { m with previous := event } : Io S E Unit) :=
      kept.change (fun m => ⟨rfl, rfl, rfl⟩) (fun m p member => member)
    refine ((previous (b + 1)).weaken (fun _ now => now) (fun _ _ now => now) (fun t now => ?_)).bind fun _ => ?_
    · exact now.fewer (Nat.le_succ_of_le more)
    · refine .modify _ fun t holds => (holds.fewer (Nat.le_succ_of_le more)).put ?_ fun p member => ?_
      · exact kept.alike (t.machines id) _ ⟨rfl, rfl, rfl⟩ (holds.all id)
      · rcases List.mem_append.mp member with old | new
        · exact holds.branches id p old
        · cases List.mem_singleton.mp new
          exact holds.count

theorem Kept.stopBranch (kept : Kept D T Enters) (safe : Safe T Enters rec) (q : S) :
    Keeps T (stopBranch rec id q) := by
  rw [StateMachine.stopBranch]
  refine keeps_machine.bind fun m => ?_
  split
  · exact .throw _
  · next branch _ =>
    exact (safe.stop branch).bind fun _ =>
      kept.change (fun m => ⟨rfl, rfl, rfl⟩) (fun m => List.filter_subset_self _)

theorem Kept.script (kept : Kept D T Enters) (safe : Safe T Enters rec) (calls : List (Call S)) :
    Keeps T (script rec id calls) := by
  induction calls with
  | nil => exact .pure ()
  | cons call rest ih =>
    cases call with
    | branch q => exact (kept.branchToState safe q none).bind fun _ => ih
    | stopBranch q => exact (kept.stopBranch safe q).bind fun _ => ih
    | raise e => exact .throw e

/-- A state that is left is left for good. -/
theorem Kept.exitState (kept : Kept D T Enters) (safe : Safe T Enters rec) :
    Leads (Holds T n) (exitState rec id D) (fun _ t => Holds T n t ∧ (t.machines id).current = none) (Holds T n) := by
  rw [StateMachine.exitState]
  refine (keeps_machine n).bind fun m => ?_
  split
  · exact .throw _ fun _ now => now
  · refine (keeps_number n).bind fun k => (kept.script safe _ n).bind fun _ => .modify _ fun t holds => ⟨?_, ?_⟩
    · exact holds.put (kept.leave _ (holds.all id)) (holds.branches id)
    · rw [put_same]

theorem Kept.enterState (kept : Kept D T Enters) (safe : Safe T Enters rec) (s : S) :
    Leads (fun t => Holds T n t ∧ Enters (t.machines id)) (enterState rec id D s) (fun _ => Holds T n) (Holds T n) := by
  rw [StateMachine.enterState]
  split
  · exact .throw _ fun t now => now.1
  · refine (kept.subscribeAll s).bind fun _ => Leads.bind (Q := fun _ => Holds T n) (.modify _ ?_) fun _ => ?_
    · rintro u ⟨t, ⟨holds, enters⟩, rfl⟩
      show Holds T n (World.put (t.put id _) id (entered ((t.put id _).machines id) s))
      rw [put_same, put_put]
      exact holds.put (kept.enter _ s (holds.all id) enters) (holds.branches id)
    · refine (keeps_number n).bind fun k => (kept.script safe _ n).bind fun _ => ?_
      refine .ite (fun _ => ?_) fun _ => .pure () fun _ now => now
      have complete : Keeps T (update id fun m => { m with complete := true } : Io S E Unit) :=
        kept.change (fun m => ⟨rfl, rfl, rfl⟩) (fun m p member => member)
      exact (kept.exitState safe).bind fun _ =>
        (complete n).weaken (fun _ now => now.1) (fun _ _ now => now) (fun _ now => now)

theorem Kept.exitCurrent (kept : Kept D T Enters) (safe : Safe T Enters rec) :
    Leads (Holds T n) (exitCurrent rec id D) (fun _ t => Holds T n t ∧ (t.machines id).current = none) (Holds T n) := by
  refine leads_machine.bind fun m => .ite (fun _ => ?_) fun idle => .pure () ?_
  · exact (kept.exitState safe).weaken (fun _ known => known.2) (fun _ _ now => now) (fun _ now => now)
  · rintro u ⟨rfl, holds⟩
    exact ⟨holds, Option.not_isSome_iff_eq_none.mp idle⟩

/-- One level of commands keeps what the commands below it keep. -/
theorem Kept.perform (kept : Kept D T Enters) (safe : Safe T Enters rec) :
    Safe T Enters (fun id cmd => perform rec id D cmd) where
  start n id s := by
    refine Leads.bind (Q := fun _ t => Holds T n t ∧ Enters (t.machines id)) (.modify _ ?_) fun _ => kept.enterState safe s
    rintro t ⟨holds, enters⟩
    refine ⟨holds.put (kept.alike (t.machines id) _ ⟨rfl, rfl, rfl⟩ (holds.all id)) (holds.branches id), ?_⟩
    rw [put_same]
    exact kept.entersAlike (t.machines id) _ ⟨rfl, rfl, rfl⟩ enters
  stop id := by
    intro n
    refine (kept.exitCurrent safe).bind fun _ => Leads.bind (Q := fun _ => Holds T n) (.modify _ ?_) fun _ => ?_
    · rintro t ⟨holds, idle⟩
      exact holds.put (kept.alike (t.machines id) _ ⟨idle.symm, rfl, rfl⟩ (holds.all id)) (holds.branches id)
    · have cleared : Keeps T (update id fun m => { m with branches := [] } : Io S E Unit) :=
        kept.change (fun m => ⟨rfl, rfl, rfl⟩) (fun m => List.nil_subset _)
      exact (keeps_machine n).bind fun m => (safe.stopAll m.branches n).bind fun _ => cleared n

end

/-! ### Calls -/

section
variable {S E V : Type} [DecidableEq S] {T Enters : Machine S E → Prop} {D : Description S E V}

theorem Kept.run (kept : Kept D T Enters) (depth : ℕ) : Safe T Enters (run D depth) := by
  induction depth with
  | zero => exact ⟨fun n id s => .throw _ fun _ now => now.1, fun id => .throw _⟩
  | succ depth ih => exact kept.perform ih

variable {rec : ℕ → Cmd S → Io S E Unit} {id : ℕ}

theorem Kept.callFunc (kept : Kept D T Enters) (safe : Safe T Enters rec) (s : S) (type : E) :
    Keeps T (callFunc D rec id s type) := by
  rw [StateMachine.callFunc]
  split
  · exact .pure true
  · exact keeps_number.bind fun n => (kept.script safe _).bind fun _ => .pure _

theorem Kept.follow (kept : Kept D T Enters) (safe : Safe T Enters rec) (s : S) (target : Target S) (event : Event E) :
    Keeps T (follow D rec id s target event) := by
  intro n
  cases target with
  | branch q => exact kept.branchToState safe q _ n
  | state q =>
    refine .ite (fun _ => .pure () fun _ now => now) fun _ => (kept.exitState safe).bind fun _ => ?_
    exact (kept.enterState safe q).weaken (fun t now => ⟨now.1, kept.idle _ now.2⟩) (fun _ _ now => now) (fun _ now => now)

variable [DecidableEq E]

theorem Kept.injectEvent (kept : Kept D T Enters) (safe : Safe T Enters rec) (event : Event E) :
    Keeps T (injectEvent D rec id event) := by
  rw [StateMachine.injectEvent]
  refine keeps_machine.bind fun m => .ite (.pure ()) (.ite (.throw _) ?_)
  split
  · exact .throw _
  · next s _ =>
    have previous : Keeps T (update id fun m => { m with previous := some event.id } : Io S E Unit) :=
      kept.change (fun m => ⟨rfl, rfl, rfl⟩) (fun m p member => member)
    refine Keeps.bind ?_ fun _ => previous
    rw [transition]
    split
    · exact .pure ()
    · exact (kept.callFunc safe s event.type).bind fun goes => .ite (kept.follow safe s _ event) (.pure ())

theorem Kept.injectAll (kept : Kept D T Enters) (safe : Safe T Enters rec) (event : Event E) (branches : List (S × ℕ)) :
    Keeps T (injectAll D rec event branches) := by
  induction branches with
  | nil => exact .pure ()
  | cons branch rest ih => exact (kept.injectEvent safe event).bind fun _ => ih

/-- A call from outside keeps the property, if a state is entered only where it may be. -/
theorem Kept.act {n depth : ℕ} {t : World S E} {act : ℕ × Op S E} (kept : Kept D T Enters) (holds : Holds T n t)
    (enters : ∀ s, act.2 = .start (.state s) → Enters (t.machines act.1)) : Holds T n (next D depth t act) := by
  have safe := kept.run depth
  rw [StateMachine.next]
  split
  · obtain ⟨id, op⟩ := act
    cases op with
    | start target =>
      cases target with
      | state s => exact (safe.start n id s).final ⟨holds, enters s rfl⟩
      | branch s => exact (kept.branchToState safe s none n).final holds
    | stop => exact (safe.stop id n).final holds
    | stopBranch s => exact (kept.stopBranch safe s n).final holds
    | injectEvent event all =>
      cases all with
      | false => exact (kept.injectEvent safe event n).final holds
      | true =>
        have both : Keeps T (call D id depth (.injectEvent event true)) :=
          (kept.injectEvent safe event).bind fun _ => keeps_machine.bind fun m => kept.injectAll safe event m.branches
        exact (both n).final holds
  · exact holds

/-- What must hold of a machine when a state is entered is asked of the calls from outside only. -/
theorem Kept.acts {n depth : ℕ} {ready : World S E → ℕ × Op S E → Prop} (kept : Kept D T Enters)
    (enters : ∀ t id s, ready t (id, .start (.state s)) → Enters (t.machines id)) {acts : List (ℕ × Op S E)}
    (each : Each (next D depth) ready (begin n) acts) : Holds T n (after (next D depth) (begin n) acts) := by
  refine after_invariant (fun t act holds now => ?_) ⟨Nat.le_refl n, fun _ => kept.fresh, fun _ p member => ?_⟩ each
  · obtain ⟨id, op⟩ := act
    refine kept.act holds fun s start => enters t id s ?_
    cases start
    exact now
  · cases member

end

/-! ### Subscriptions -/

section
variable {S E V : Type} [DecidableEq S] [DecidableEq E] {D : Description S E V}

/-- Every state that the machine has been in, but the one that it is in, has been left once. -/
def Paired (m : Machine S E) : Prop :=
  ∃ past : List S, m.log = past.flatMap (fun s => [.entered s, .exited s]) ++ m.current.toList.map .entered

omit [DecidableEq S] [DecidableEq E] in
theorem Paired.left {m : Machine S E} (paired : Paired m) : Paired (left m) := by
  obtain ⟨past, log⟩ := paired
  refine ⟨past ++ m.current.toList, ?_⟩
  show m.log ++ _ = _ ++ []
  rw [log]
  cases m.current with
  | none => simp
  | some s => simp

omit [DecidableEq S] [DecidableEq E] in
theorem Paired.entered {m : Machine S E} (paired : Paired m) (idle : m.current = none) (types : List E) (s : S) :
    Paired (entered (subscribed m types) s) := by
  obtain ⟨past, log⟩ := paired
  refine ⟨past, ?_⟩
  show m.log ++ _ = _
  rw [log, idle]
  simp [StateRuns.entered]

/-- The machine is subscribed to each event of its state once, and to nothing without a state.
    Every state that it has been in, but the one that it is in, has been left once. -/
structure Tidy (D : Description S E V) (m : Machine S E) : Prop where
  connections : m.connections = m.current.toList.flatMap D.events
  once : m.connections.Nodup
  log : ∃ past : List S, m.log = past.flatMap (fun s => [.entered s, .exited s]) ++ m.current.toList.map .entered

/-- A state is entered where there is none. -/
def ready (t : World S E) : ℕ × Op S E → Bool
  | (id, .start (.state _)) => (t.machines id).current.isNone
  | _ => true

omit [DecidableEq S] [DecidableEq E] in
theorem tidy_kept (hub : D.hub = true) (types : ∀ s, ∀ type ∈ D.events s, D.isFunction type = false) :
    Kept D (Tidy D) (fun m => m.current = none) where
  fresh := ⟨rfl, List.nodup_nil, [], rfl⟩
  alike m m' alike tidy := by
    refine ⟨?_, ?_, ?_⟩
    · rw [alike.connections, alike.current]
      exact tidy.connections
    · rw [alike.connections]
      exact tidy.once
    · rw [alike.log, alike.current]
      exact tidy.log
  entersAlike m m' alike idle := alike.current.trans idle
  idle m idle := idle
  leave m tidy := by
    have log : Paired m := tidy.log
    exact ⟨rfl, List.nodup_nil, log.left⟩
  refuse m s done type rest _ parts function tidy _ := by
    have member : type ∈ D.events s := by rw [parts]; simp
    rw [types s type member] at function
    contradiction
  enter m s tidy idle := by
    have log : Paired m := tidy.log
    have none : m.connections = [] := by rw [tidy.connections, idle]; rfl
    have now : (m.connections ++ if D.hub then D.events s else []) = D.events s := by rw [none, if_pos hub, List.nil_append]
    refine ⟨?_, ?_, log.entered idle _ s⟩
    · show _ = D.events s ++ []
      rw [List.append_nil]
      exact now
    · show (m.connections ++ _).Nodup
      rw [now]
      exact D.distinct s

/-- In runs that enter a state with `start` only where there is none, every machine is always tidy. -/
theorem subscriptions (D : Description S E V) (hub : D.hub = true)
    (types : ∀ s, ∀ type ∈ D.events s, D.isFunction type = false) (depth n : ℕ) (acts : List (ℕ × Op S E))
    (each : Each (next D depth) (fun t act => ready t act = true) (begin n) acts) (id : ℕ) :
    Tidy D ((after (next D depth) (begin n) acts).machines id) :=
  ((tidy_kept hub types).acts (fun _ _ _ idle => Option.isNone_iff_eq_none.mp idle) each).all id

end

/-- Two states, each with an event that leads to the other. -/
def twoStates : Description Bool ℕ Unit where
  hub := true
  subsystems := ["eventHub", "queuedEventHub", "stateMachine"]
  config _ _ := none
  getattr _ := []
  init _ := none
  transitions s := if s then [(1, .state false)] else [(0, .state true)]
  distinct s := by cases s <;> simp
  isFunction _ := false
  enter _ _ := []
  exit _ _ := []
  func _ _ := none

theorem subscriptions_twoStates :
    Each (next twoStates 2) (fun t act => ready t act = true) (begin 1)
      [(0, .start (.state false)), (0, .injectEvent ⟨0, 0⟩ false), (0, .start (.branch false)), (0, .stop)] ∧
    Tidy twoStates ((after (next twoStates 2) (begin 1)
      [(0, .start (.state false)), (0, .injectEvent ⟨0, 0⟩ false), (0, .start (.branch false)), (0, .stop)]).machines 0) :=
  ⟨by decide, subscriptions twoStates rfl (fun _ _ _ => rfl) 2 1 _ (by decide) 0⟩

/-- A second start leaves the first state without an exit, and its subscriptions stay. -/
theorem not_subscriptions :
    ¬ ∀ (depth n : ℕ) (acts : List (ℕ × Op Bool ℕ)) (id : ℕ),
      Tidy twoStates ((after (next twoStates depth) (begin n) acts).machines id) := by
  intro tidy
  have connections := (tidy 2 1 [(0, .start (.state false)), (0, .start (.state true))] 0).connections
  revert connections
  decide

end Tortuga.StateRuns
