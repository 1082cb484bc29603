import Tortuga.StateRuns
import Mathlib.Data.List.Nodup

/-!
A machine that is stopped stops its branches, and these theirs (`state.py`): the machines of a run
form a tree by their branches, and `stop` at its root leaves nothing of any of them.
-/
namespace Tortuga.MachineStop
open Tortuga.Raising Tortuga.Machines Tortuga.StateMachine Tortuga.StateRuns

/-! ### The tree of the machines -/

section
variable {S E : Type}

/-- The machine has no state, no subscription and no branch. -/
structure Idle (m : Machine S E) : Prop where
  current : m.current = none
  connections : m.connections = []
  branches : m.branches = []

/-- The machine is a branch of one of the machines. -/
def Registered (t : World S E) (i : ℕ) : Prop := ∃ j < t.count, i ∈ (t.machines j).branches.map Prod.snd

/-- A branch is made after its machine, and a machine has one branch to a state. -/
structure Shape (t : World S E) : Prop where
  later : ∀ i, ∀ p ∈ (t.machines i).branches, i < p.2 ∧ p.2 < t.count
  keys : ∀ i, ((t.machines i).branches.map Prod.fst).Nodup
  fresh : ∀ i, t.count ≤ i → t.machines i = .fresh

/-- Every machine that is not idle is a branch, but for those that may be loose. -/
structure Tree (loose : ℕ → Prop) (t : World S E) : Prop extends Shape t where
  unsubscribed : ∀ i, (t.machines i).current = none → (t.machines i).connections = []
  attached : ∀ i, ¬ Idle (t.machines i) → loose i ∨ Registered t i

/-- What a command for a machine leaves alone: the machines made before it, and the others that are idle. -/
structure Frame (id : ℕ) (t u : World S E) : Prop where
  count : t.count ≤ u.count
  below : ∀ i < id, u.machines i = t.machines i
  idle : ∀ i < t.count, i ≠ id → Idle (t.machines i) → Idle (u.machines i)

variable {loose : ℕ → Prop} {t u v : World S E} {m : Machine S E} {id b i : ℕ}

theorem idle_fresh : Idle (.fresh : Machine S E) := ⟨rfl, rfl, rfl⟩

theorem Frame.refl : Frame id t t := ⟨Nat.le_refl _, fun _ _ => rfl, fun _ _ _ idle => idle⟩

theorem Frame.trans (first : Frame id t u) (second : Frame id u v) : Frame id t v where
  count := Nat.le_trans first.count second.count
  below i less := (second.below i less).trans (first.below i less)
  idle i old other idle := second.idle i (Nat.lt_of_lt_of_le old first.count) other (first.idle i old other idle)

/-- A command for a later machine leaves alone what one for this machine does, if that machine ends idle or is new. -/
theorem Frame.inner (first : Frame id t u) (second : Frame b u v) (above : id < b)
    (after : Idle (v.machines b) ∨ t.count ≤ b) : Frame id t v where
  count := Nat.le_trans first.count second.count
  below i less := (second.below i (Nat.lt_trans less above)).trans (first.below i less)
  idle i old other idle := by
    by_cases same : i = b
    · rcases after with now | new
      · rw [same]
        exact now
      · omega
    · exact second.idle i (Nat.lt_of_lt_of_le old first.count) same (first.idle i old other idle)

theorem Frame.put (frame : Frame id t u) : Frame id t (u.put id m) where
  count := frame.count
  below i less := (put_other (Nat.ne_of_lt less)).trans (frame.below i less)
  idle i old other idle := by
    rw [put_other other]
    exact frame.idle i old other idle

/-- A machine stays a branch while only later machines change. -/
theorem Registered.frame (shape : Shape t) (registered : Registered t i) (frame : Frame b t u) (less : i < b) : Registered u i := by
  obtain ⟨j, there, member⟩ := registered
  obtain ⟨p, inside, rfl⟩ := List.mem_map.mp member
  have before : j < b := Nat.lt_trans (shape.later j p inside).1 less
  refine ⟨j, Nat.lt_of_lt_of_le there frame.count, ?_⟩
  rw [frame.below j before]
  exact member

/-- The machine `id` is replaced: its branches may go when they are idle. -/
theorem Shape.put (shape : Shape t) (there : id < t.count) (later : ∀ p ∈ m.branches, id < p.2 ∧ p.2 < t.count)
    (keys : (m.branches.map Prod.fst).Nodup) : Shape (t.put id m) where
  later i p member := by
    by_cases same : i = id
    · rw [same, put_same] at member
      rw [same]
      exact later p member
    · rw [put_other same] at member
      exact shape.later i p member
  keys i := by
    by_cases same : i = id
    · rw [same, put_same]
      exact keys
    · rw [put_other same]
      exact shape.keys i
  fresh i new := by
    have other : i ≠ id := by
      rintro rfl
      exact Nat.not_lt.mpr new there
    rw [put_other other]
    exact shape.fresh i new

theorem Tree.put (tree : Tree loose t) (there : id < t.count) (later : ∀ p ∈ m.branches, id < p.2 ∧ p.2 < t.count)
    (keys : (m.branches.map Prod.fst).Nodup) (unsubscribed : m.current = none → m.connections = [])
    (held : ¬ Idle m → loose id ∨ Registered t id)
    (gone : ∀ p ∈ (t.machines id).branches, p ∈ m.branches ∨ Idle (t.machines p.2)) : Tree loose (t.put id m) where
  toShape := tree.toShape.put there later keys
  unsubscribed i none := by
    by_cases same : i = id
    · rw [same, put_same] at none ⊢
      exact unsubscribed none
    · rw [put_other same] at none ⊢
      exact tree.unsubscribed i none
  attached i busy := by
    have found : loose i ∨ Registered t i := by
      by_cases same : i = id
      · rw [same, put_same] at busy
        rw [same]
        exact held busy
      · rw [put_other same] at busy
        exact tree.attached i busy
    refine found.imp_right ?_
    rintro ⟨j, old, member⟩
    refine ⟨j, old, ?_⟩
    by_cases same : j = id
    · rw [same] at member
      obtain ⟨p, inside, rfl⟩ := List.mem_map.mp member
      rw [same, put_same]
      have other : p.2 ≠ id := Nat.ne_of_gt (tree.later id p inside).1
      rw [put_other other] at busy
      rcases gone p inside with stays | idle
      · exact List.mem_map_of_mem stays
      · exact absurd idle busy
    · rw [put_other same]
      exact member

/-- The branches of the machine stay as they are. -/
theorem Tree.change (tree : Tree loose t) (there : id < t.count) (branches : m.branches = (t.machines id).branches)
    (unsubscribed : m.current = none → m.connections = []) (held : ¬ Idle m → loose id ∨ Registered t id) : Tree loose (t.put id m) := by
  refine tree.put there ?_ ?_ unsubscribed held fun p member => .inl ?_
  · rw [branches]
    exact tree.later id
  · rw [branches]
    exact tree.keys id
  · rw [branches]
    exact member

/-- A machine that has become a branch is no longer loose. -/
theorem settled (registered : Registered t b) (found : (loose i ∨ i = b) ∨ Registered t i) : loose i ∨ Registered t i := by
  rcases found with (free | rfl) | branch
  · exact .inl free
  · exact .inr registered
  · exact .inr branch

/-- Where the root of the tree is idle, all machines are. -/
theorem Tree.all_idle (tree : Tree (· = 0) t) (root : Idle (t.machines 0)) (i : ℕ) : Idle (t.machines i) := by
  induction i using Nat.strongRecOn with
  | ind i ih =>
    by_contra busy
    rcases tree.attached i busy with rfl | ⟨j, _, member⟩
    · exact busy root
    · obtain ⟨p, inside, rfl⟩ := List.mem_map.mp member
      have none : (t.machines j).branches = [] := (ih j (tree.later j p inside).1).branches
      rw [none] at inside
      cases inside

/-- What programs for a machine start from and lead to: the tree, with all but the machine's part of it left alone. -/
structure Stage (loose : ℕ → Prop) (id : ℕ) (t u : World S E) : Prop extends Tree loose u, Frame id t u where
  there : id < u.count
  held : loose id ∨ Registered u id

theorem Tree.stage (tree : Tree loose t) (there : id < t.count) (held : loose id ∨ Registered t id) : Stage loose id t t :=
  ⟨tree, .refl, there, held⟩

/-- The machine itself is changed. -/
theorem Stage.put (stage : Stage loose id t u) (tree : Tree loose (u.put id m)) : Stage loose id t (u.put id m) where
  toTree := tree
  toFrame := stage.toFrame.put
  there := stage.there
  held := by
    refine stage.held.imp_right ?_
    rintro ⟨j, old, member⟩
    obtain ⟨p, inside, same⟩ := List.mem_map.mp member
    have other : j ≠ id := Nat.ne_of_lt (same ▸ (stage.later j p inside).1)
    refine ⟨j, old, ?_⟩
    rw [put_other other]
    exact member

/-- A later machine has been dealt with. -/
theorem Stage.inner {looser : ℕ → Prop} (stage : Stage loose id t u) (fewer : ∀ i, loose i → looser i) (tree : Tree looser v)
    (frame : Frame b u v) (above : id < b) (after : Idle (v.machines b) ∨ t.count ≤ b) : Stage looser id t v where
  toTree := tree
  toFrame := stage.toFrame.inner frame above after
  there := Nat.lt_of_lt_of_le stage.there frame.count
  held := stage.held.imp (fewer id) fun registered => registered.frame stage.toShape frame above

theorem Stage.settle (stage : Stage (fun i => loose i ∨ i = b) id t u) (registered : Registered u b) : Stage loose id t u where
  toShape := stage.toShape
  unsubscribed := stage.unsubscribed
  attached i busy := settled registered (stage.attached i busy)
  toFrame := stage.toFrame
  there := stage.there
  held := settled registered stage.held

end

/-! ### Programs for a machine -/

/-- The program for machine `id` keeps the tree, or raises and keeps its shape. -/
abbrev Grows {S E α : Type} (loose : ℕ → Prop) (id : ℕ) (f : Io S E α) : Prop :=
  ∀ t, Leads (Stage loose id t) f (fun _ => Stage loose id t) Shape

/-- What commands for machines do to the tree. -/
structure Obeys {S E : Type} (rec : ℕ → Cmd S → Io S E Unit) : Prop where
  start : ∀ loose b s, loose b → Grows loose b (rec b (.start s))
  stop : ∀ loose b t, Tree loose t → b < t.count →
    Leads (· = t) (rec b .stop) (fun _ u => Tree loose u ∧ Frame b t u ∧ Idle (u.machines b)) Shape

section
variable {S E V α β : Type} {loose : ℕ → Prop} {t u : World S E} {id : ℕ} {rec : ℕ → Cmd S → Io S E Unit}

theorem Grows.bind {f : Io S E α} {g : α → Io S E β} (first : Grows loose id f) (rest : ∀ a, Grows loose id (g a)) :
    Grows loose id (f >>= g) :=
  fun t => (first t).bind fun a => rest a t

theorem Grows.pure (a : α) : Grows loose id (pure a : Io S E α) := fun _ => .pure a fun _ stage => stage

theorem Grows.throw (e : Error) : Grows loose id (throw e : Io S E α) := fun _ => .throw e fun _ stage => stage.toShape

theorem Grows.ite {c : Prop} [Decidable c] {f g : Io S E α} (yes : Grows loose id f) (no : Grows loose id g) :
    Grows loose id (if c then f else g) :=
  fun t => .ite (fun _ => yes t) (fun _ => no t)

/-- A change of the machine alone. -/
theorem Grows.update {f : Machine S E → Machine S E} (branches : ∀ m, (f m).branches = m.branches)
    (unsubscribed : ∀ m, (m.current = none → m.connections = []) → (f m).current = none → (f m).connections = []) :
    Grows loose id (update id f) :=
  fun _ => .modify _ fun _ stage =>
    stage.put (stage.change stage.there (branches _) (unsubscribed _ (stage.unsubscribed id)) fun _ => stage.held)

theorem grows_machine : Grows loose id (machine id : Io S E (Machine S E)) :=
  fun _ => leads_machine.weaken (fun _ stage => stage) (fun _ _ known => known.2) (fun _ shape => shape)

/-- Only the machines and how many they are matter. -/
theorem Stage.calls (stage : Stage loose id t u) (calls : ℕ) : Stage loose id t { u with calls := calls } :=
  ⟨⟨⟨stage.later, stage.keys, stage.fresh⟩, stage.unsubscribed, stage.attached⟩, ⟨stage.count, stage.below, stage.idle⟩,
    stage.there, stage.held⟩

theorem grows_number : Grows loose id (number : Io S E ℕ) := by
  intro t
  rw [number]
  refine Leads.get.bind fun n => Leads.bind (Q := fun _ => Stage loose id t) (.modify _ ?_) fun _ => .pure _ fun _ stage => stage
  rintro u ⟨_, stage⟩
  exact stage.calls _

end

section
variable {S E V : Type} {loose : ℕ → Prop} {t u : World S E} {id : ℕ} {rec : ℕ → Cmd S → Io S E Unit}

/-- A new machine may be loose. -/
theorem Tree.create (tree : Tree loose t) :
    Tree (fun i => loose i ∨ i = t.count) { t.put t.count .fresh with count := t.count + 1 } := by
  have same : (t.put t.count .fresh).machines = t.machines := by
    funext i
    by_cases new : i = t.count
    · rw [new, put_same]
      exact (tree.fresh t.count (Nat.le_refl _)).symm
    · exact put_other new
  refine ⟨⟨?_, ?_, ?_⟩, ?_, ?_⟩
  · show ∀ i, ∀ p ∈ ((t.put t.count .fresh).machines i).branches, _
    rw [same]
    exact fun i p member => ⟨(tree.later i p member).1, Nat.lt_succ_of_lt (tree.later i p member).2⟩
  · show ∀ i, (((t.put t.count .fresh).machines i).branches.map Prod.fst).Nodup
    rw [same]
    exact tree.keys
  · show ∀ i, t.count + 1 ≤ i → (t.put t.count .fresh).machines i = _
    rw [same]
    exact fun i new => tree.fresh i (Nat.le_of_succ_le new)
  · show ∀ i, ((t.put t.count .fresh).machines i).current = none → ((t.put t.count .fresh).machines i).connections = []
    rw [same]
    exact tree.unsubscribed
  · show ∀ i, ¬ Idle ((t.put t.count .fresh).machines i) → _
    rw [same]
    refine fun i busy => (tree.attached i busy).imp .inl ?_
    rintro ⟨j, old, member⟩
    refine ⟨j, Nat.lt_succ_of_lt old, ?_⟩
    show i ∈ (((t.put t.count .fresh).machines j).branches).map Prod.snd
    rw [same]
    exact member

theorem Frame.created (frame : Frame t.count { t.put t.count .fresh with count := t.count + 1 } u) : Frame t.count t u where
  count := Nat.le_of_succ_le frame.count
  below i old := (frame.below i old).trans (put_other (Nat.ne_of_lt old))
  idle i old other idle := by
    refine frame.idle i (Nat.lt_succ_of_lt old) other ?_
    show Idle ((t.put t.count .fresh).machines i)
    rw [put_other other]
    exact idle

variable [DecidableEq S]

/-- A branch that is started is registered, or its start has raised. -/
theorem Obeys.branchToState (obeys : Obeys rec) (q : S) (event : Option ℕ) : Grows loose id (branchToState rec id q event) := by
  intro t
  rw [StateMachine.branchToState]
  refine leads_machine.bind fun m => .ite (fun _ => .throw _ fun _ known => known.2.toShape) fun unbranched => ?_
  refine .given fun u => ?_
  rintro ⟨rfl, stage⟩
  have created : Leads (· = u) (create : Io S E ℕ)
      (fun b v => b = u.count ∧ Stage (fun i => loose i ∨ i = b) b { u.put u.count .fresh with count := u.count + 1 } v) Shape := by
    refine ⟨?_, ?_⟩
    · rintro _ b v rfl run
      cases run
      exact ⟨rfl, stage.create.stage (Nat.lt_succ_self _) (.inl (.inr rfl))⟩
    · rintro _ e v _ run
      cases run
  refine created.bind fun b => .fact ?_
  rintro rfl
  refine (obeys.start _ _ q (.inr rfl) _).bind fun _ => (Grows.update ?_ ?_ _).bind fun _ => .modify _ fun v inner => ?_
  · exact fun _ => rfl
  · exact fun _ unsubscribed => unsubscribed
  · -- The new machine is a branch from now on.
    have same : v.machines id = u.machines id := (inner.below id stage.there).trans (put_other (Nat.ne_of_lt stage.there))
    have now : Stage (fun i => loose i ∨ i = u.count) id t v :=
      stage.inner (fun _ => .inl) inner.toTree inner.toFrame.created stage.there (.inr stage.count)
    refine (now.put (now.toTree.put now.there ?_ ?_ ?_ (fun _ => now.held) fun p member => ?_)).settle ?_
    · intro p member
      rcases List.mem_append.mp member with old | new
      · exact now.later id p old
      · cases List.mem_singleton.mp new
        exact ⟨stage.there, inner.there⟩
    · rw [same, List.map_append]
      exact List.nodup_append_comm.mp (List.nodup_cons.mpr ⟨unbranched, stage.keys id⟩)
    · exact now.unsubscribed id
    · exact .inl (List.mem_append_left _ member)
    · refine ⟨id, now.there, ?_⟩
      rw [put_same, List.map_append]
      exact List.mem_append_right _ (List.mem_singleton.mpr rfl)

theorem mem_of_lookup {q : S} {b : ℕ} {branches : List (S × ℕ)} (found : branches.lookup q = some b) : (q, b) ∈ branches := by
  obtain ⟨before, behind, rfl, _⟩ := List.lookup_eq_some_iff.mp found
  exact List.mem_append_right _ List.mem_cons_self

/-- The branch to a state is the only one with that state. -/
theorem Shape.only (shape : Shape t) {p : S × ℕ} {b : ℕ} (member : p ∈ (t.machines id).branches)
    (found : (t.machines id).branches.lookup p.1 = some b) : p.2 = b := by
  have same : p = (p.1, b) := List.inj_on_of_nodup_map (shape.keys id) member (mem_of_lookup found) rfl
  exact congrArg Prod.snd same

theorem Obeys.stopBranch (obeys : Obeys rec) (q : S) : Grows loose id (stopBranch rec id q) := by
  intro t
  rw [StateMachine.stopBranch]
  refine leads_machine.bind fun m => .given fun u => ?_
  rintro ⟨rfl, stage⟩
  split
  · refine .throw _ ?_
    rintro _ rfl
    exact stage.toShape
  · next b found =>
    obtain ⟨above, there⟩ := stage.later id _ (mem_of_lookup found)
    refine (obeys.stop loose b u stage.toTree there).bind fun _ => .modify _ ?_
    rintro v ⟨tree, frame, idle⟩
    have now : Stage loose id t v := stage.inner (fun _ free => free) tree frame above (.inl idle)
    have same : v.machines id = u.machines id := frame.below id above
    refine now.put (tree.put now.there ?_ ?_ ?_ (fun _ => now.held) fun p member => ?_)
    · exact fun p member => tree.later id p (List.mem_of_mem_filter member)
    · exact (tree.keys id).sublist (List.filter_sublist.map _)
    · exact tree.unsubscribed id
    · by_cases key : p.1 = q
      · rw [same] at member
        rw [stage.only member (key ▸ found)]
        exact .inr idle
      · exact .inl (List.mem_filter.mpr ⟨member, by simp [key]⟩)

theorem Obeys.script (obeys : Obeys rec) (calls : List (Call S)) : Grows loose id (script rec id calls) := by
  induction calls with
  | nil => exact .pure ()
  | cons call rest ih =>
    cases call with
    | branch q => exact (obeys.branchToState q none).bind fun _ => ih
    | stopBranch q => exact (obeys.stopBranch q).bind fun _ => ih
    | raise e => exact .throw e

variable {D : Description S E V}

theorem Obeys.exitState (obeys : Obeys rec) :
    Leads (Stage loose id t) (exitState rec id D) (fun _ u => Stage loose id t u ∧ (u.machines id).current = none) Shape := by
  rw [StateMachine.exitState]
  refine (grows_machine t).bind fun m => ?_
  split
  · exact .throw _ fun _ stage => stage.toShape
  · refine (grows_number t).bind fun n => (obeys.script _ t).bind fun _ => .modify _ fun u stage => ⟨?_, ?_⟩
    · exact stage.put (stage.change stage.there rfl (fun _ => rfl) fun _ => stage.held)
    · rw [put_same]

theorem Obeys.enterState (obeys : Obeys rec) (s : S) : Grows loose id (enterState rec id D s) := by
  intro t
  rw [StateMachine.enterState]
  split
  · exact Grows.throw _ t
  · refine .given fun u stage => Leads.bind (Q := fun _ v => ∃ types, v = u.put id (subscribed (u.machines id) types)) ?_ fun _ =>
      Leads.bind (Q := fun _ => Stage loose id t) (.modify _ ?_) fun _ => ?_
    · -- Where the subscriptions raise, those before stay.
      have start : u = u.put id (subscribed (u.machines id) []) := by simp [World.put]
      refine .ite (fun _ => ?_) fun _ => .pure () ?_
      · refine (subscribe_leads u (D.events s) [] _ rfl).weaken ?_ ?_ ?_
        · rintro _ rfl
          exact start
        · exact fun _ v now => ⟨_, now⟩
        · rintro _ ⟨before, _, _, _, _, rfl⟩
          exact stage.toShape.put stage.there (stage.later id) (stage.keys id)
      · rintro _ rfl
        exact ⟨_, start⟩
    · rintro _ ⟨types, rfl⟩
      show Stage loose id t (World.put (u.put id _) id (entered ((u.put id _).machines id) s))
      rw [put_same, put_put]
      exact stage.put (stage.change stage.there rfl (fun none => absurd none (Option.some_ne_none s)) fun _ => stage.held)
    · refine (grows_number t).bind fun n => (obeys.script _ t).bind fun _ => .ite (fun _ => ?_) fun _ => Grows.pure () t
      have complete : Grows loose id (update id fun m => { m with complete := true } : Io S E Unit) :=
        .update (fun _ => rfl) fun _ unsubscribed => unsubscribed
      exact obeys.exitState.bind fun _ => (complete t).weaken (fun _ now => now.1) (fun _ _ now => now) (fun _ now => now)

omit [DecidableEq S] in
/-- A machine with a state is in the tree. -/
theorem Tree.busy (tree : Tree loose t) {s : S} (current : (t.machines id).current = some s) : loose id ∨ Registered t id :=
  tree.attached id fun idle => nomatch idle.current.symm.trans current

theorem Obeys.exitCurrent (obeys : Obeys rec) (tree : Tree loose t) (there : id < t.count) :
    Leads (· = t) (exitCurrent rec id D)
      (fun _ u => Tree loose u ∧ Frame id t u ∧ id < u.count ∧ (u.machines id).current = none) Shape := by
  rw [StateMachine.exitCurrent]
  refine leads_machine.bind fun m => .ite (fun current => ?_) fun idle => .pure () ?_
  · refine .given fun u => ?_
    rintro ⟨rfl, rfl⟩
    obtain ⟨s, current⟩ := Option.isSome_iff_exists.mp current
    refine obeys.exitState.weaken ?_ (fun _ v now => ⟨now.1.toTree, now.1.toFrame, now.1.there, now.2⟩) fun _ shape => shape
    rintro _ rfl
    exact tree.stage there (tree.busy current)
  · rintro u ⟨rfl, rfl⟩
    exact ⟨tree, .refl, there, Option.not_isSome_iff_eq_none.mp idle⟩

omit [DecidableEq S] in
/-- Later machines are stopped one after the other, and each stays idle. -/
theorem Obeys.stopAll (obeys : Obeys rec) {branches : List (S × ℕ)} (tree : Tree loose t)
    (later : ∀ p ∈ branches, id < p.2 ∧ p.2 < t.count) :
    Leads (· = t) (stopAll rec branches)
      (fun _ u => Tree loose u ∧ Frame id t u ∧ u.machines id = t.machines id ∧ ∀ p ∈ branches, Idle (u.machines p.2)) Shape := by
  induction branches generalizing t with
  | nil =>
    refine .pure () ?_
    rintro _ rfl
    exact ⟨tree, .refl, rfl, fun p member => by cases member⟩
  | cons p rest ih =>
    obtain ⟨above, there⟩ := later p List.mem_cons_self
    refine (obeys.stop loose p.2 t tree there).bind fun _ => .given fun u => ?_
    rintro ⟨now, frame, idle⟩
    have still : ∀ q ∈ rest, id < q.2 ∧ q.2 < u.count := fun q member =>
      ⟨(later q (List.mem_cons_of_mem _ member)).1, Nat.lt_of_lt_of_le (later q (List.mem_cons_of_mem _ member)).2 frame.count⟩
    refine (ih now still).weaken (fun _ same => same) ?_ fun _ shape => shape
    rintro _ v ⟨last, after, same, all⟩
    refine ⟨last, (Frame.refl.inner frame above (.inl idle)).trans after, same.trans (frame.below id above), fun q member => ?_⟩
    rcases List.mem_cons.mp member with rfl | member
    · exact after.idle q.2 (Nat.lt_of_lt_of_le there frame.count) (Nat.ne_of_gt above) idle
    · exact all q member

/-- One level of commands does to the tree what the commands below it do. -/
theorem Obeys.perform (obeys : Obeys rec) : Obeys (fun id cmd => perform rec id D cmd) where
  start loose id s free t := by
    refine Leads.bind (Q := fun _ => Stage loose id t) (.modify _ fun u stage => ?_) fun _ => obeys.enterState s t
    exact stage.put (stage.change stage.there rfl (stage.unsubscribed id) fun _ => .inl free)
  stop loose id t tree there := by
    refine (obeys.exitCurrent tree there).bind fun _ =>
      Leads.bind (Q := fun _ u => Tree loose u ∧ Frame id t u ∧ id < u.count ∧
        (u.machines id).current = none ∧ (u.machines id).connections = []) (.modify _ ?_) fun _ => ?_
    · rintro u ⟨now, frame, there, none⟩
      refine ⟨now.change there rfl (fun _ => now.unsubscribed id none) fun busy => ?_, frame.put, there, ?_, ?_⟩
      · refine now.attached id fun idle => busy ⟨rfl, idle.connections, idle.branches⟩
      · rw [put_same]
      · rw [put_same]
        exact now.unsubscribed id none
    · refine leads_machine.bind fun m => .given fun u => ?_
      rintro ⟨rfl, now, frame, there, none, unsubscribed⟩
      refine (obeys.stopAll now (now.later id)).bind fun _ => .modify _ ?_
      rintro v ⟨last, after, same, all⟩
      have idle : Idle { v.machines id with branches := [] } := by
        rw [same]
        exact ⟨none, unsubscribed, rfl⟩
      refine ⟨last.put (Nat.lt_of_lt_of_le there after.count) ?_ List.nodup_nil ?_ ?_ ?_, (frame.trans after).put, ?_⟩
      · exact fun p member => nomatch member
      · exact fun _ => idle.connections
      · exact fun busy => absurd idle busy
      · intro p member
        rw [same] at member
        exact .inr (all p member)
      · rw [put_same]
        exact idle

end

/-! ### Calls from outside -/

section
variable {S E V : Type} [DecidableEq S] [DecidableEq E] {D : Description S E V} {loose : ℕ → Prop} {t u : World S E} {id depth : ℕ}

omit [DecidableEq E] in
theorem obeys_run (depth : ℕ) : Obeys (run D depth) := by
  induction depth with
  | zero =>
    refine ⟨fun _ _ _ _ => .throw _, fun _ _ t tree _ => .throw _ ?_⟩
    rintro _ rfl
    exact tree.toShape
  | succ depth ih => exact ih.perform

variable {rec : ℕ → Cmd S → Io S E Unit}

omit [DecidableEq E] in
theorem Obeys.callFunc (obeys : Obeys rec) (s : S) (type : E) : Grows loose id (callFunc D rec id s type) := by
  rw [StateMachine.callFunc]
  split
  · exact .pure true
  · exact grows_number.bind fun n => (obeys.script _).bind fun _ => .pure _

omit [DecidableEq E] in
theorem Obeys.follow (obeys : Obeys rec) (s : S) (target : Target S) (event : Event E) :
    Grows loose id (follow D rec id s target event) := by
  cases target with
  | branch q => exact obeys.branchToState q _
  | state q =>
    refine .ite (.pure ()) fun t => obeys.exitState.bind fun _ => ?_
    exact (obeys.enterState q t).weaken (fun _ now => now.1) (fun _ _ now => now) (fun _ now => now)

theorem Obeys.injectEvent (obeys : Obeys rec) (event : Event E) (tree : Tree loose t) (there : id < t.count) :
    Leads (· = t) (injectEvent D rec id event) (fun _ u => Tree loose u ∧ t.count ≤ u.count) Shape := by
  rw [StateMachine.injectEvent]
  refine leads_machine.bind fun m => .given fun u => ?_
  rintro ⟨rfl, rfl⟩
  have raises (e : Error) : Leads (· = u) (throw e : Io S E Unit) (fun _ v => Tree loose v ∧ u.count ≤ v.count) Shape := by
    refine .throw e ?_
    rintro _ rfl
    exact tree.toShape
  refine .ite (fun _ => .pure () ?_) fun _ => .ite (fun _ => raises _) fun _ => ?_
  · rintro _ rfl
    exact ⟨tree, Nat.le_refl _⟩
  · split
    · exact raises _
    · next s current =>
      have previous : Grows loose id (update id fun m => { m with previous := some event.id } : Io S E Unit) :=
        .update (fun _ => rfl) fun _ unsubscribed => unsubscribed
      have goes : Grows loose id (transition D rec id s event) := by
        rw [transition]
        split
        · exact .pure ()
        · exact (obeys.callFunc s event.type).bind fun _ => .ite (obeys.follow s _ event) (.pure ())
      refine (goes.bind fun _ => previous) u |>.weaken ?_ (fun _ v stage => ⟨stage.toTree, stage.count⟩) fun _ shape => shape
      rintro _ rfl
      exact tree.stage there (tree.busy current)

theorem Obeys.injectAll (obeys : Obeys rec) (event : Event E) {branches : List (S × ℕ)} (tree : Tree loose t)
    (there : ∀ p ∈ branches, p.2 < t.count) : Leads (· = t) (injectAll D rec event branches) (fun _ => Tree loose) Shape := by
  induction branches generalizing t with
  | nil =>
    refine .pure () ?_
    rintro _ rfl
    exact tree
  | cons p rest ih =>
    refine (obeys.injectEvent event tree (there p List.mem_cons_self)).bind fun _ => .given fun u => ?_
    rintro ⟨now, more⟩
    exact ih now fun q member => Nat.lt_of_lt_of_le (there q (List.mem_cons_of_mem _ member)) more

/-- The first machine is started with a state when it has none, and branches are made of machines in the tree. -/
def Allowed (t : World S E) : ℕ × Op S E → Prop
  | (id, .start (.state _)) => id = 0 ∧ (t.machines id).current.isNone
  | (id, .start (.branch _)) => id = 0 ∨ Registered t id
  | _ => True

/-- A call that returns keeps the tree. -/
theorem call_tree {op : Op S E} (tree : Tree (· = 0) t) (there : id < t.count) (allowed : Allowed t (id, op)) :
    Leads (· = t) (call D id depth op) (fun _ => Tree (· = 0)) Shape := by
  have obeys : Obeys (run D depth) := obeys_run depth
  have within {f : Io S E Unit} (grows : Grows (· = 0) id f) (held : id = 0 ∨ Registered t id) :
      Leads (· = t) f (fun _ => Tree (· = 0)) Shape := by
    refine (grows t).weaken ?_ (fun _ _ stage => stage.toTree) fun _ shape => shape
    rintro _ rfl
    exact tree.stage there held
  cases op with
  | start target =>
    cases target with
    | state s => exact within (obeys.start _ id s allowed.1) (.inl allowed.1)
    | branch s => exact within (obeys.branchToState s none) allowed
  | stop => exact (obeys.stop _ id t tree there).weaken (fun _ now => now) (fun _ _ now => now.1) fun _ shape => shape
  | stopBranch s =>
    by_cases idle : Idle (t.machines id)
    · -- There is no branch to stop.
      show Leads (· = t) (StateMachine.stopBranch (run D depth) id s) _ _
      rw [StateMachine.stopBranch]
      refine leads_machine.bind fun m => .given fun u => ?_
      rintro ⟨rfl, rfl⟩
      rw [idle.branches]
      refine .throw _ ?_
      rintro _ rfl
      exact tree.toShape
    · exact within (obeys.stopBranch s) (tree.attached id idle)
  | injectEvent event all =>
    have first := (obeys.injectEvent (D := D) event tree there)
    cases all with
    | false => exact first.weaken (fun _ now => now) (fun _ _ now => now.1) fun _ shape => shape
    | true =>
      refine first.bind fun _ => leads_machine.bind fun m => .given fun u => ?_
      rintro ⟨rfl, now, _⟩
      exact obeys.injectAll event now fun p member => (now.later id p member).2

/-- A machine without a state has no subscription, and one that is not idle is a branch, or the first. -/
structure Whole (t : World S E) : Prop where
  unsubscribed : ∀ i, (t.machines i).current = none → (t.machines i).connections = []
  attached : ∀ i, ¬ Idle (t.machines i) → i = 0 ∨ Registered t i

/-- The call returns, or what it has done before it raises leaves no machine that runs and is no branch. -/
def Clear (D : Description S E V) (depth : ℕ) (t : World S E) (act : ℕ × Op S E) : Prop :=
  (∃ u, call D act.1 depth act.2 t = .ok () u) ∨ Whole (next D depth t act)

theorem next_tree {act : ℕ × Op S E} (tree : Tree (· = 0) t) (allowed : Allowed t act) (clear : Clear D depth t act) :
    Tree (· = 0) (next D depth t act) := by
  by_cases there : act.1 < t.count
  · have step : Leads (· = t) (call D act.1 depth act.2) (fun _ => Tree (· = 0)) Shape := call_tree tree there allowed
    have now : next D depth t act = final (call D act.1 depth act.2 t) := if_pos there
    cases run : call D act.1 depth act.2 t with
    | ok a u =>
      rw [now, run]
      exact step.returns t a u rfl run
    | error e u =>
      rcases clear with ⟨v, returned⟩ | whole
      · rw [run] at returned
        contradiction
      · rw [now, run] at whole ⊢
        exact ⟨step.raises t e u rfl run, whole.unsubscribed, whole.attached⟩
  · rw [next, if_neg there]
    exact tree

omit [DecidableEq S] [DecidableEq E] in
theorem begin_tree : Tree (· = 0) (begin 1 : World S E) where
  later i p member := by cases member
  keys i := List.nodup_nil
  fresh i _ := rfl
  unsubscribed i _ := rfl
  attached i busy := absurd idle_fresh busy

omit [DecidableEq S] [DecidableEq E] in
/-- Every state is left once, unless it is the current one. -/
theorem paired_kept : Kept D Paired (fun m => m.current = none) where
  fresh := ⟨[], rfl⟩
  alike m m' alike paired := by
    obtain ⟨past, log⟩ := paired
    exact ⟨past, by rw [alike.log, alike.current, log]⟩
  entersAlike m m' alike idle := alike.current.trans idle
  idle m idle := idle
  leave m paired := paired.left
  refuse m s done type rest _ _ _ paired _ := paired
  enter m s paired idle := paired.entered idle _ s

/-! ### Stopping -/

/-- Nothing is left of the machine, and each state that it has been in has been left. -/
structure Stopped (m : Machine S E) : Prop extends Idle m where
  exited : ∃ past : List S, m.log = past.flatMap fun s => [.entered s, .exited s]

omit [DecidableEq S] [DecidableEq E] in
theorem Paired.stopped {m : Machine S E} (paired : Paired m) (idle : Idle m) : Stopped m := by
  obtain ⟨past, log⟩ := paired
  rw [idle.current] at log
  exact ⟨idle, past, log.trans (List.append_nil _)⟩

/-- Machines stop without raising, where the calls may nest from them to the last machine. -/
def Stops (rec : ℕ → Cmd S → Io S E Unit) (depth : ℕ) : Prop :=
  ∀ t id, Shape t → id < t.count → t.count ≤ depth + id →
    Leads (· = t) (rec id .stop) (fun _ u => Shape u ∧ u.count = t.count) (fun _ => False)

omit [DecidableEq S] [DecidableEq E] in
theorem Stops.all (stops : Stops rec depth) {branches : List (S × ℕ)} (shape : Shape t)
    (later : ∀ p ∈ branches, p.2 < t.count ∧ t.count ≤ depth + p.2) :
    Leads (· = t) (StateMachine.stopAll rec branches) (fun _ u => Shape u ∧ u.count = t.count) (fun _ => False) := by
  induction branches generalizing t with
  | nil =>
    refine .pure () ?_
    rintro _ rfl
    exact ⟨shape, rfl⟩
  | cons p rest ih =>
    obtain ⟨there, deep⟩ := later p List.mem_cons_self
    refine (stops t p.2 shape there deep).bind fun _ => .given fun u => ?_
    rintro ⟨now, same⟩
    rw [← same] at later ⊢
    exact ih now fun q member => later q (List.mem_cons_of_mem _ member)

omit [DecidableEq E] in
theorem exitCurrent_returns (exits : ∀ s n, D.exit s n = []) (shape : Shape t) (there : id < t.count) :
    Leads (· = t) (exitCurrent rec id D) (fun _ u => Shape u ∧ u.count = t.count) (fun _ => False) := by
  rw [StateMachine.exitCurrent]
  refine leads_machine.bind fun m => .ite (fun current => ?_) fun _ => .pure () ?_
  · rw [StateMachine.exitState]
    refine leads_machine.bind fun m' => .given fun u => ?_
    rintro ⟨rfl, rfl, rfl⟩
    split
    · next none =>
      rw [none] at current
      contradiction
    · have counted : Leads (· = u) (number : Io S E ℕ) (fun _ v => v = { u with calls := u.calls + 1 }) (fun _ => False) := by
        rw [number]
        refine Leads.get.bind fun v => Leads.bind (Q := fun _ w => w = { u with calls := u.calls + 1 }) (.modify _ ?_) fun _ =>
          .pure _ fun _ now => now
        rintro _ ⟨_, rfl⟩
        rfl
      refine counted.bind fun n => ?_
      rw [exits]
      refine Leads.bind (Q := fun _ v => v = { u with calls := u.calls + 1 }) (.pure () fun _ now => now) fun _ => .modify _ ?_
      rintro _ rfl
      have same : Shape { u with calls := u.calls + 1 } := ⟨shape.later, shape.keys, shape.fresh⟩
      exact ⟨same.put there (shape.later id) (shape.keys id), rfl⟩
  · rintro u ⟨rfl, rfl⟩
    exact ⟨shape, rfl⟩

omit [DecidableEq E] in
/-- Where functions for exits do nothing to their machines, a machine stops if the calls may nest as deep as
    there are machines after it. -/
theorem stops_run (exits : ∀ s n, D.exit s n = []) (depth : ℕ) : Stops (run D depth : ℕ → Cmd S → Io S E Unit) depth := by
  induction depth with
  | zero =>
    intro t id _ there deep
    omega
  | succ depth ih =>
    intro t id shape there deep
    refine (exitCurrent_returns exits shape there).bind fun _ =>
      Leads.bind (Q := fun _ u => Shape u ∧ u.count = t.count) (.modify _ ?_) fun _ => ?_
    · rintro u ⟨now, same⟩
      exact ⟨now.put (same ▸ there) (now.later id) (now.keys id), same⟩
    · refine leads_machine.bind fun m => .given fun u => ?_
      rintro ⟨rfl, now, same⟩
      have below : ∀ p ∈ (u.machines id).branches, p.2 < u.count ∧ u.count ≤ depth + p.2 := fun p member => by
        have later := now.later id p member
        omega
      refine (ih.all now below).bind fun _ => .modify _ ?_
      rintro v ⟨last, count⟩
      exact ⟨last.put (by omega) (fun p member => nomatch member) List.nodup_nil, count.trans same⟩

/-- After a run in which calls that raise leave no machine behind, `stop` leaves nothing of the first machine
    nor of any branch of it or its branches. Where no function for an exit does anything to its machine, it
    does return. -/
theorem stop_complete (D : Description S E V) (depth : ℕ) (acts : List (ℕ × Op S E))
    (each : Each (next D depth) (fun t act => Allowed t act ∧ Clear D depth t act) (begin 1) acts) :
    (∀ u, call D 0 depth .stop (after (next D depth) (begin 1) acts) = .ok () u → ∀ i, Stopped (u.machines i)) ∧
    ((∀ s n, D.exit s n = []) → (after (next D depth) (begin 1) acts).count ≤ depth →
      ∃ u, call D 0 depth .stop (after (next D depth) (begin 1) acts) = .ok () u) := by
  have tree : Tree (· = 0) (after (next D depth) (begin 1) acts) :=
    after_invariant (fun t act tree now => next_tree tree now.1 now.2) begin_tree each
  have holds : Holds Paired 1 (after (next D depth) (begin 1) acts) :=
    paired_kept.acts (fun t id s now => Option.isNone_iff_eq_none.mp now.1.2) each
  generalize after (next D depth) (begin 1) acts = t at tree holds
  refine ⟨fun u run i => ?_, fun exits deep => ?_⟩
  · obtain ⟨last, _, idle⟩ := ((obeys_run depth).stop (· = 0) 0 t tree holds.count).returns t () u rfl run
    have kept : Holds Paired 1 (next D depth t (0, .stop)) :=
      paired_kept.act holds fun s start => by cases start
    have there : 0 < t.count := holds.count
    have now : next D depth t (0, .stop) = u := (if_pos there).trans (by rw [run]; rfl)
    rw [now] at kept
    exact Paired.stopped (kept.all i) (last.all_idle idle i)
  · have leads := stops_run exits depth t 0 tree.toShape holds.count deep
    cases run : call D 0 depth .stop t with
    | ok _ u => exact ⟨u, rfl⟩
    | error e u => exact absurd (leads.raises t e u rfl run) not_false

end

/-- A branch, and a branch of that. -/
def branched : List (ℕ × Op Bool ℕ) := [(0, .start (.state false)), (0, .start (.branch true)), (1, .start (.branch false))]

theorem stop_complete_branched :
    (∀ u, call twoStates 0 3 .stop (after (next twoStates 3) (begin 1) branched) = .ok () u → ∀ i, Stopped (u.machines i)) ∧
    ((∀ s n, twoStates.exit s n = []) → (after (next twoStates 3) (begin 1) branched).count ≤ 3 →
      ∃ u, call twoStates 0 3 .stop (after (next twoStates 3) (begin 1) branched) = .ok () u) :=
  stop_complete twoStates 3 branched
    ⟨⟨⟨rfl, rfl⟩, .inl ⟨_, rfl⟩⟩, ⟨.inl rfl, .inl ⟨_, rfl⟩⟩,
      ⟨.inr ⟨0, by decide, List.mem_singleton.mpr rfl⟩, .inl ⟨_, rfl⟩⟩, trivial⟩

/-- Two states, where the function for the entry of the second raises. -/
def failingEnter : Description Bool ℕ Unit :=
  { twoStates with enter := fun s _ => if s then [.raise (.exception "enter")] else [] }

/-- The machine of a branch whose entry has raised is subscribed, and `stop` does not reach it. -/
theorem not_stop_complete :
    ¬ ∀ (D : Description Bool ℕ Unit) (depth : ℕ) (acts : List (ℕ × Op Bool ℕ)),
      Each (next D depth) Allowed (begin 1) acts →
      ∀ u, call D 0 depth .stop (after (next D depth) (begin 1) acts) = .ok () u → ∀ i, Stopped (u.machines i) := by
  intro complete
  have stopped := complete failingEnter 2 [(0, .start (.state false)), (0, .start (.branch true))]
    ⟨⟨rfl, rfl⟩, .inl rfl, trivial⟩ _ rfl 1
  have connections := stopped.connections
  revert connections
  decide

end Tortuga.MachineStop
