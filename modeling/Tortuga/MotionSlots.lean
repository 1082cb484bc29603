import Tortuga.MotionManager
import Tortuga.Machines
import Mathlib.Data.List.Nodup

/-!
What the slots of the motion manager hold (`motion/basic.py`): motions that run, each in all the
slots of its type, unless a motion finishes while it is stopped half-way through a change.
-/
namespace Tortuga.MotionSlots
open Tortuga.Raising Tortuga.Machines Tortuga.MotionManager

/-! ### Types and slots -/

section
variable {M : Type} {D : Motions M} {m d : M} {s s' : Slot}

theorem mem_all (s : Slot) : s ∈ Slot.all := by
  cases s <;> simp [Slot.all]

theorem order_inPlane : Slot.all = [] ++ .inPlane :: [.depth, .orientation] := rfl

theorem order_depth : Slot.all = [.inPlane] ++ .depth :: [.orientation] := rfl

theorem order_orientation : Slot.all = [.inPlane, .depth] ++ .orientation :: [] := rfl

/-- The slots of a motion's type, in the order in which the manager goes through them. -/
def slotsOf (D : Motions M) (m : M) : List Slot := Slot.all.filter (D.has m)

theorem mem_slotsOf : s ∈ slotsOf D m ↔ D.has m s = true := by
  rw [slotsOf, List.mem_filter]
  exact ⟨fun inside => inside.2, fun has => ⟨mem_all s, has⟩⟩

/-- The motion takes more than one slot. -/
def compound (D : Motions M) (m : M) : Bool := 1 < (slotsOf D m).length

/-- A motion that has only one slot has no other. -/
theorem single_of (single : compound D m = false) (has : D.has m s = true) (other : D.has m s' = true) : s' = s := by
  have few : (slotsOf D m).length ≤ 1 := Nat.not_lt.mp (of_decide_eq_false single)
  have inside : s ∈ slotsOf D m := mem_slotsOf.mpr has
  have within : s' ∈ slotsOf D m := mem_slotsOf.mpr other
  match slots : slotsOf D m with
  | [] => rw [slots] at inside; cases inside
  | [a] =>
    rw [slots] at inside within
    exact (List.mem_singleton.mp within).trans (List.mem_singleton.mp inside).symm
  | a :: b :: rest => rw [slots] at few; simp at few

/-- `d` may be in the way of `m` at a slot of `m` after its first, and only there. -/
def clashes (D : Motions M) (m d : M) : Bool :=
  match slotsOf D m with
  | [] => false
  | first :: later => !D.has d first && later.any (D.has d)

theorem clashes_of {first : Slot} {later : List Slot} (slots : slotsOf D m = first :: later) (apart : D.has d first = false)
    (inside : s ∈ later) (meets : D.has d s = true) : clashes D m d = true := by
  rw [clashes, slots]
  simp only [apart, Bool.not_false, Bool.true_and, List.any_eq_true]
  exact ⟨s, inside, meets⟩

end

/-! ### Removing a motion -/

section
variable {M : Type} [DecidableEq M] {D : Motions M} {t u : Manager M} {m : M}

omit [DecidableEq M] in
@[simp] theorem put_same (s : Slot) (x : Option M) : (t.put s x).slots s = x := by
  simp [Manager.put]

omit [DecidableEq M] in
theorem put_other {s s' : Slot} (x : Option M) (other : s' ≠ s) : (t.put s x).slots s' = t.slots s' := by
  simp [Manager.put, other]

/-- The manager with the motion in none of its slots. -/
def without (t : Manager M) (m : M) : Manager M :=
  { t with slots := fun s => if t.slots s = some m then none else t.slots s }

theorem without_slots {s : Slot} {x : M} : (without t m).slots s = some x ↔ t.slots s = some x ∧ x ≠ m := by
  rw [without]
  constructor
  · intro now
    dsimp only at now
    split at now
    · cases now
    · next other =>
      refine ⟨now, ?_⟩
      rintro rfl
      exact other now
  · rintro ⟨now, other⟩
    dsimp only
    rw [if_neg, now]
    rw [now]
    exact fun same => other (Option.some_inj.mp same)

theorem without_absent (absent : ∀ s, t.slots s ≠ some m) : without t m = t := by
  have same : (fun s => if t.slots s = some m then none else t.slots s) = t.slots := by
    funext s
    exact if_neg (absent s)
  rw [without, same]

/-- The motion is removed from some of the slots. -/
def cut (t : Manager M) (m : M) (done : List Slot) : Manager M :=
  { t with slots := fun s => if s ∈ done ∧ t.slots s = some m then none else t.slots s }

theorem cut_nil : cut t m [] = t := by
  simp [cut]

theorem cut_of_mem {done : List Slot} (inside : ∀ s, t.slots s = some m → s ∈ done) : cut t m done = without t m := by
  have same (s : Slot) : (s ∈ done ∧ t.slots s = some m) ↔ t.slots s = some m := ⟨And.right, fun now => ⟨inside s now, now⟩⟩
  simp only [cut, without, same]

theorem cut_snoc {done : List Slot} {s : Slot} (now : t.slots s = some m) : (cut t m done).put s none = cut t m (done ++ [s]) := by
  have same : Function.update (cut t m done).slots s none = (cut t m (done ++ [s])).slots := by
    funext s'
    by_cases here : s' = s
    · rw [here, Function.update_self]
      exact (if_pos ⟨List.mem_append_right _ (List.mem_singleton.mpr rfl), now⟩).symm
    · rw [Function.update_of_ne here]
      simp [cut, here]
  rw [Manager.put, same]
  rfl

theorem cut_snoc_of_ne {done : List Slot} {s : Slot} (absent : t.slots s ≠ some m) : cut t m (done ++ [s]) = cut t m done := by
  have same (s' : Slot) : (s' ∈ done ++ [s] ∧ t.slots s' = some m) ↔ (s' ∈ done ∧ t.slots s' = some m) := by
    constructor
    · rintro ⟨inside, now⟩
      refine ⟨?_, now⟩
      rcases List.mem_append.mp inside with old | new
      · exact old
      · cases List.mem_singleton.mp new
        exact absurd now absent
    · rintro ⟨inside, now⟩
      exact ⟨List.mem_append_left _ inside, now⟩
  simp only [cut, same]

/-- What is known when `_removeMotion` has come to a slot of the motion's type that does not hold it. -/
def Refused (D : Motions M) (t : Manager M) (m : M) (u : Manager M) : Prop :=
  ∃ done s later, Slot.all = done ++ s :: later ∧ D.has m s = true ∧ t.slots s ≠ some m ∧ u = cut t m done

theorem clear_leads (has : ∀ s, t.slots s = some m → D.has m s = true) {done later : List Slot} {s : Slot}
    (order : Slot.all = done ++ s :: later) :
    Leads (fun u => u = cut t m done ∧ ∀ s' ∈ done, D.has m s' = true → t.slots s' = some m) (clear D m s)
      (fun _ u => u = cut t m (done ++ [s]) ∧ ∀ s' ∈ done ++ [s], D.has m s' = true → t.slots s' = some m)
      (Refused D t m) := by
  have new : s ∉ done := by
    have once : Slot.all.Nodup := by decide
    rw [order] at once
    exact fun old => (List.nodup_append.mp once).2.2 s old s List.mem_cons_self rfl
  have same : (cut t m done).slots s = t.slots s := if_neg fun both => new both.1
  have snoc (holds : D.has m s = true → t.slots s = some m) (before : ∀ s' ∈ done, D.has m s' = true → t.slots s' = some m) :
      ∀ s' ∈ done ++ [s], D.has m s' = true → t.slots s' = some m := by
    intro s' inside
    rcases List.mem_append.mp inside with old | last
    · exact before s' old
    · cases List.mem_singleton.mp last
      exact holds
  refine .ite (fun typed => ?_) fun untyped => .pure () ?_
  · refine Leads.get.bind fun u => .given fun v => ?_
    rintro ⟨rfl, rfl, before⟩
    rw [same]
    refine .ite (fun now => .modify _ ?_) fun absent => .throw _ ?_
    · rintro _ rfl
      exact ⟨cut_snoc now, snoc (fun _ => now) before⟩
    · rintro _ rfl
      exact ⟨done, s, later, order, typed, absent, rfl⟩
  · rintro u ⟨rfl, before⟩
    refine ⟨(cut_snoc_of_ne fun now => untyped (has s now)).symm, snoc (fun typed => absurd typed untyped) before⟩

theorem removeMotion_leads (has : ∀ s, t.slots s = some m → D.has m s = true) :
    Leads (· = t) (removeMotion D m) (fun _ u => u = without t m ∧ ∀ s, D.has m s = true → t.slots s = some m)
      (Refused D t m) := by
  have first := clear_leads (D := D) has order_inPlane
  have second := clear_leads (D := D) has order_depth
  have third := clear_leads (D := D) has order_orientation
  refine (first.bind fun _ => second.bind fun _ => third).weaken ?_ ?_ fun _ refused => refused
  · rintro _ rfl
    exact ⟨cut_nil.symm, fun s inside => by cases inside⟩
  · rintro _ u ⟨rfl, all⟩
    exact ⟨cut_of_mem fun s _ => mem_all s, fun s => all s (mem_all s)⟩

/-- A motion that has all the slots of its type is not partly removed. -/
theorem Refused.whole (refused : Refused D t m u) (whole : ∀ s, t.slots s = some m → ∀ s', D.has m s' = true → t.slots s' = some m) :
    u = t ∧ ∀ s, t.slots s ≠ some m := by
  obtain ⟨done, s, later, _, typed, absent, rfl⟩ := refused
  have nowhere (s' : Slot) : t.slots s' ≠ some m := fun now => absent (whole s' now s typed)
  refine ⟨?_, nowhere⟩
  rw [cut_of_mem fun s' now => absurd now (nowhere s'), without_absent nowhere]

/-- A motion that has the first slot of its type at most is removed. -/
theorem Refused.first (refused : Refused D t m u) (first : ∀ s, t.slots s = some m → (slotsOf D m).head? = some s) :
    u = without t m := by
  obtain ⟨done, s, later, order, typed, absent, rfl⟩ := refused
  refine cut_of_mem fun s' now => ?_
  have head := first s' now
  rw [slotsOf, order, List.filter_append, List.filter_cons_of_pos typed] at head
  cases before : done.filter (D.has m) with
  | nil =>
    rw [before] at head
    cases head
    exact absurd now absent
  | cons a rest =>
    rw [before] at head
    cases head
    have inside : s' ∈ done.filter (D.has m) := by rw [before]; exact List.mem_cons_self
    exact List.mem_of_mem_filter inside

end

/-! ### The invariant -/

section
variable {M : Type}

/-- What holds also while a motion is being set. `P` are the motions that may take part, `G` some
    that are over, and `n` motions wait at most. -/
structure Base (D : Motions M) (P G : M → Prop) (n : ℕ) (t : Manager M) : Prop where
  typed : ∀ s m, t.slots s = some m → D.has m s = true
  part : ∀ s m, t.slots s = some m → P m
  running : ∀ s m, t.slots s = some m → m ∈ t.started ∧ m ∉ t.stopped
  stoppedStarted : ∀ m ∈ t.stopped, m ∈ t.started
  startedOnce : t.started.Nodup
  stoppedOnce : t.stopped.Nodup
  waiting : ∀ m ∈ t.queuedMotions, m ∉ t.started ∧ P m
  waitingOnce : t.queuedMotions.Nodup
  order : (t.started ++ t.queuedMotions).Sublist t.given
  few : t.queuedMotions.length ≤ n
  past : ∀ m, G m → m ∈ t.started ∧ ∀ s, t.slots s ≠ some m

/-- Every motion in a slot has all the slots of its type. -/
structure Good (D : Motions M) (P G : M → Prop) (n : ℕ) (t : Manager M) : Prop extends Base D P G n t where
  whole : ∀ s m, t.slots s = some m → ∀ s', D.has m s' = true → t.slots s' = some m

/-- A motion may be set. -/
structure Ready (D : Motions M) (P G : M → Prop) (n : ℕ) (m : M) (t : Manager M) : Prop extends Good D P G n t where
  takesPart : P m
  unstarted : m ∉ t.started
  unqueued : m ∉ t.queuedMotions
  next : (t.started ++ m :: t.queuedMotions).Sublist t.given

/-- The motion has the slots of its type that have been seen. -/
structure Half (D : Motions M) (P G : M → Prop) (n : ℕ) (m : M) (seen : List Slot) (t : Manager M) : Prop extends Base D P G n t where
  takesPart : P m
  others : ∀ s d, t.slots s = some d → d ≠ m → ∀ s', D.has d s' = true → t.slots s' = some d
  here : ∀ s, t.slots s = some m ↔ s ∈ seen ∧ D.has m s = true
  first : ∃ s later, slotsOf D m = s :: later ∧ s ∈ seen

/-- Motions that do not disturb one another half-way through a change: none raises in its `stop`, none of more
    than one slot in its `start`, and none finishes in its `stop` that may be in the way of another at a later slot. -/
structure Apt (D : Motions M) (P : M → Prop) : Prop where
  stop : ∀ m, P m → Act.raise ∉ D.stop m
  start : ∀ m, P m → compound D m = true → Act.raise ∉ D.start m
  clash : ∀ m d, P m → P d → clashes D m d = true → D.stop d = []

variable {D : Motions M} {P G : M → Prop} {n : ℕ} {t u : Manager M} {m d : M} {s : Slot} {seen : List Slot}

theorem Base.more {k : ℕ} (base : Base D P G n t) (more : n ≤ k) : Base D P G k t :=
  { base with few := Nat.le_trans base.few more }

theorem Good.more {k : ℕ} (good : Good D P G n t) (more : n ≤ k) : Good D P G k t :=
  { good with toBase := good.toBase.more more }

/-- A motion that has been started and has no slot is over. -/
theorem Good.ended (good : Good D P G n t) (started : m ∈ t.started) (absent : ∀ s, t.slots s ≠ some m) :
    Good D P (fun d => G d ∨ d = m) n t where
  toBase := { good.toBase with
    past := by
      rintro d (old | rfl)
      · exact good.past d old
      · exact ⟨started, absent⟩ }
  whole := good.whole

theorem Good.forget {G' : M → Prop} (good : Good D P G' n t) (fewer : ∀ d, G d → G' d) : Good D P G n t :=
  ⟨{ good.toBase with past := fun d old => good.past d (fewer d old) }, good.whole⟩

variable [DecidableEq M]

/-- A motion leaves its slots and is stopped. -/
def stopped (t : Manager M) (m : M) : Manager M := { without t m with stopped := t.stopped ++ [m] }

theorem stopped_slots {x : M} : (stopped t m).slots s = some x ↔ t.slots s = some x ∧ x ≠ m := without_slots

/-- A motion that has finished has no slot any more. -/
theorem Base.without (base : Base D P G n t) (m : M) : Base D P G n (without t m) where
  typed s d now := base.typed s d (without_slots.mp now).1
  part s d now := base.part s d (without_slots.mp now).1
  running s d now := base.running s d (without_slots.mp now).1
  stoppedStarted := base.stoppedStarted
  startedOnce := base.startedOnce
  stoppedOnce := base.stoppedOnce
  waiting := base.waiting
  waitingOnce := base.waitingOnce
  order := base.order
  few := base.few
  past d old := ⟨(base.past d old).1, fun s now => (base.past d old).2 s (without_slots.mp now).1⟩

theorem Good.without (good : Good D P G n t) (m : M) : Good D P G n (without t m) where
  toBase := good.toBase.without m
  whole s d now s' typed := by
    obtain ⟨before, other⟩ := without_slots.mp now
    exact without_slots.mpr ⟨good.whole s d before s' typed, other⟩

/-- A running motion is stopped once. -/
theorem Base.stopped (base : Base D P G n t) (now : t.slots s = some m) : Base D P G n (stopped t m) where
  typed s d now := base.typed s d (stopped_slots.mp now).1
  part s d now := base.part s d (stopped_slots.mp now).1
  running s d now := by
    obtain ⟨before, other⟩ := stopped_slots.mp now
    refine ⟨(base.running s d before).1, fun was => ?_⟩
    rcases List.mem_append.mp was with old | new
    · exact (base.running s d before).2 old
    · exact other (List.mem_singleton.mp new)
  stoppedStarted d was := by
    rcases List.mem_append.mp was with old | new
    · exact base.stoppedStarted d old
    · rw [List.mem_singleton.mp new]
      exact (base.running s m now).1
  startedOnce := base.startedOnce
  stoppedOnce := List.nodup_append_comm.mp (List.nodup_cons.mpr ⟨(base.running s m now).2, base.stoppedOnce⟩)
  waiting := base.waiting
  waitingOnce := base.waitingOnce
  order := base.order
  few := base.few
  past d old := ⟨(base.past d old).1, fun s now => (base.past d old).2 s (stopped_slots.mp now).1⟩

theorem Good.stopped (good : Good D P G n t) (now : t.slots s = some m) : Good D P G n (stopped t m) where
  toBase := good.toBase.stopped now
  whole s d now s' typed := by
    obtain ⟨before, other⟩ := stopped_slots.mp now
    exact stopped_slots.mpr ⟨good.whole s d before s' typed, other⟩

theorem Ready.stopped (ready : Ready D P G n m t) (now : t.slots s = some d) : Ready D P G n m (stopped t d) :=
  ⟨ready.toGood.stopped now, ready.takesPart, ready.unstarted, ready.unqueued, ready.next⟩

theorem Half.stopped (half : Half D P G n m seen t) (now : t.slots s = some d) (other : d ≠ m) :
    Half D P G n m seen (stopped t d) where
  toBase := half.toBase.stopped now
  takesPart := half.takesPart
  others s x now mine s' typed := by
    obtain ⟨before, apart⟩ := stopped_slots.mp now
    exact stopped_slots.mpr ⟨half.others s x before mine s' typed, apart⟩
  here s := by
    rw [stopped_slots, half.here]
    exact ⟨And.left, fun both => ⟨both, fun same => other same.symm⟩⟩
  first := half.first

end

/-! ### Programs -/

section
variable {M : Type} [DecidableEq M] {D : Motions M} {P G : M → Prop} {n k : ℕ} {t u : Manager M} {m d : M} {s : Slot}
  {seen later : List Slot} {rec : M → Io M Unit}

/-- What setting motions from the queue does. -/
def Sets (D : Motions M) (P : M → Prop) (rec : M → Io M Unit) (n : ℕ) : Prop :=
  ∀ G k m, k < n → Leads (Ready D P G k m) (rec m) (fun _ => Good D P G k) (Good D P G k)

omit [DecidableEq M] in
/-- The next motion may be set, and then fewer wait. -/
theorem Good.pop {rest : List M} (good : Good D P G k t) (queued : t.queuedMotions = m :: rest) :
    Ready D P G (k - 1) m { t with queuedMotions := rest } := by
  have waiting := good.waiting
  have once := good.waitingOnce
  have order := good.order
  have few := good.few
  rw [queued] at waiting once order few
  refine ⟨⟨{ good.toBase with waiting := ?_, waitingOnce := ?_, order := ?_, few := ?_ }, good.whole⟩, ?_, ?_, ?_, order⟩
  · exact fun d member => waiting d (List.mem_cons_of_mem _ member)
  · exact (List.nodup_cons.mp once).2
  · exact (List.Sublist.append_left (List.sublist_cons_self m rest) t.started).trans order
  · show rest.length ≤ k - 1
    rw [List.length_cons] at few
    omega
  · exact (waiting m List.mem_cons_self).2
  · exact (waiting m List.mem_cons_self).1
  · exact (List.nodup_cons.mp once).1

omit [DecidableEq M] in
theorem Sets.startQueuedMotion (sets : Sets D P rec n) (bound : k ≤ n) :
    Leads (Good D P G k) (startQueuedMotion rec) (fun _ => Good D P G k) (Good D P G k) := by
  rw [MotionManager.startQueuedMotion]
  refine Leads.get.bind fun v => .given fun t => ?_
  rintro ⟨rfl, good⟩
  split
  · refine .pure () ?_
    rintro _ rfl
    exact good
  · next m rest queued =>
    have positive : k - 1 < n := by
      have few := good.few
      rw [queued, List.length_cons] at few
      omega
    refine Leads.bind (Q := fun _ => Ready D P G (k - 1) m) (.modify _ ?_) fun _ =>
      (sets G (k - 1) m positive).weaken (fun _ now => now) (fun _ _ now => now.more (Nat.sub_le k 1)) fun _ now =>
        now.more (Nat.sub_le k 1)
    rintro _ rfl
    exact good.pop queued

/-- A finished event for any motion, at rest. -/
theorem Sets.publishFinished (sets : Sets D P rec n) (bound : k ≤ n) :
    Leads (Good D P G k) (publishFinished D rec m) (fun _ => Good D P G k) (Good D P G k) := by
  rw [MotionManager.publishFinished]
  refine Leads.get.bind fun v => .given fun t => ?_
  rintro ⟨rfl, good⟩
  refine .ite (fun _ => ?_) fun _ => .pure () ?_
  · rw [motionFinished]
    refine Leads.bind ((removeMotion_leads fun s => good.typed s m).weaken (fun _ now => now) ?_ ?_) fun _ =>
      sets.startQueuedMotion bound
    · rintro _ u ⟨rfl, _⟩
      exact good.without m
    · intro u refused
      rw [(refused.whole fun s => good.whole s m).1]
      exact good
  · rintro _ rfl
    exact good

theorem Sets.acts (sets : Sets D P rec n) (bound : k ≤ n) (script : List Act) :
    Leads (Good D P G k) (acts D rec m script) (fun _ => Good D P G k) (Good D P G k) := by
  induction script with
  | nil => exact .pure () fun _ good => good
  | cons act rest ih =>
    cases act with
    | finish => exact (sets.publishFinished bound).bind fun _ => ih
    | raise => exact .throw _ fun _ good => good

/-- What a motion does in a state that is not at rest: the first finished event that is heard removes the
    motion, and the rest of the script follows at rest. -/
theorem Sets.script {c : Prop} {R : Manager M → Prop} (sets : Sets D P rec n) (bound : k ≤ n) {script : List Act}
    (raises : Act.raise ∈ script → R t) (rests : ∀ u, Good D P G k u → R u)
    (removes : Leads (· = t) (removeMotion D m) (fun _ u => c ∧ Good D P G k u) R) :
    Leads (· = t) (MotionManager.acts D rec m script) (fun _ u => u = t ∨ c ∧ Good D P G k u) R := by
  have follows {f : Io M Unit} (keeps : Leads (Good D P G k) f (fun _ => Good D P G k) (Good D P G k)) :
      Leads (fun u => c ∧ Good D P G k u) f (fun _ u => u = t ∨ c ∧ Good D P G k u) R :=
    .fact fun fact => keeps.weaken (fun _ now => now) (fun _ _ now => .inr ⟨fact, now⟩) rests
  induction script with
  | nil => exact .pure () fun _ now => .inl now
  | cons act rest ih =>
    cases act with
    | finish =>
      have first : Leads (· = t) (MotionManager.publishFinished D rec m) (fun _ u => u = t ∨ c ∧ Good D P G k u) R := by
        rw [MotionManager.publishFinished]
        refine Leads.get.bind fun v => .given fun u => ?_
        rintro ⟨rfl, rfl⟩
        exact .ite (fun _ => removes.bind fun _ => follows (sets.startQueuedMotion bound)) fun _ => .pure () fun _ now => .inl now
      refine first.bind fun _ => .given fun u now => ?_
      rcases now with rfl | rests
      · exact ih fun member => raises (List.mem_cons_of_mem _ member)
      · refine (follows (sets.acts bound rest)).weaken ?_ (fun _ _ now => now) fun _ now => now
        rintro _ rfl
        exact rests
    | raise =>
      refine .throw _ ?_
      rintro _ rfl
      exact raises List.mem_cons_self

/-- A motion that is stopped at rest: it leaves its slots, or something raises at rest. -/
theorem Sets.stopMotion (sets : Sets D P rec n) (bound : k ≤ n) (apt : Apt D P) (good : Good D P G k t) (now : t.slots s = some m) :
    Leads (· = t) (stopMotion D rec m) (fun _ u => u = stopped t m) (Good D P G k) := by
  have typed : D.has m s = true := good.typed s m now
  have gone : Good D P (fun d => G d ∨ d = m) k (stopped t m) :=
    (good.stopped now).ended (good.running s m now).1 fun s' still => (stopped_slots.mp still).2 rfl
  have absent {u : Manager M} (rests : Good D P (fun d => G d ∨ d = m) k u) (s' : Slot) : u.slots s' ≠ some m :=
    (rests.past m (.inr rfl)).2 s'
  -- The motion has been told to stop and still has its slots.
  have removes : Leads (· = { t with stopped := t.stopped ++ [m] }) (removeMotion D m)
      (fun _ u => u = stopped t m) (Good D P G k) := by
    refine (removeMotion_leads (t := { t with stopped := t.stopped ++ [m] }) fun s' => good.typed s' m).weaken (fun _ now => now) ?_ ?_
    · rintro _ u ⟨rfl, _⟩
      rfl
    · intro u refused
      exact absurd now ((refused.whole fun s' => good.whole s' m).2 s)
  rw [MotionManager.stopMotion, MotionManager.stop]
  refine Leads.bind (Leads.bind (Q := fun _ u => u = { t with stopped := t.stopped ++ [m] }) (.modify _ ?_) fun _ =>
    sets.script (c := True) (G := fun d => G d ∨ d = m) bound ?_ ?_ ?_) fun _ => .given fun u now => ?_
  · rintro _ rfl
    rfl
  · exact fun raises => absurd raises (apt.stop m (good.part s m now))
  · exact fun u rests => rests.forget fun d => .inl
  · refine removes.weaken (fun _ now => now) ?_ fun _ now => now
    rintro _ u rfl
    exact ⟨trivial, gone⟩
  · rcases now with rfl | ⟨_, rests⟩
    · exact removes
    · -- It has finished meanwhile, and is in none of its slots.
      refine (removeMotion_leads fun s' => rests.typed s' m).weaken (fun _ now => now) ?_ ?_
      · rintro _ v ⟨_, all⟩
        exact absurd (all s typed) (absent rests s)
      · intro v refused
        rw [(refused.whole fun s' => rests.whole s' m).1]
        exact rests.forget fun d => .inl

/-- A motion whose `stop` does nothing to the manager just leaves its slots. -/
theorem quiet_stopMotion (quiet : D.stop m = []) (typed : ∀ s, t.slots s = some m ↔ D.has m s = true) :
    Leads (· = t) (stopMotion D rec m) (fun _ u => u = stopped t m) (fun _ => False) := by
  rw [MotionManager.stopMotion, MotionManager.stop, quiet]
  refine Leads.bind (Q := fun _ u => u = { t with stopped := t.stopped ++ [m] })
    (Leads.bind (Q := fun _ u => u = { t with stopped := t.stopped ++ [m] }) (.modify _ ?_) fun _ => .pure () fun _ now => now)
    fun _ => ?_
  · rintro _ rfl
    rfl
  · refine (removeMotion_leads (t := { t with stopped := t.stopped ++ [m] }) fun s => (typed s).mp).weaken (fun _ now => now) ?_ ?_
    · rintro _ u ⟨rfl, _⟩
      rfl
    · rintro u ⟨_, s, _, _, has, absent, _⟩
      exact absent ((typed s).mpr has)

/-! ### Setting a motion -/

/-- The motion has got a slot and is about to start. -/
def begun (t : Manager M) (m : M) (s : Slot) : Manager M := { t.put s (some m) with started := t.started ++ [m] }

omit [DecidableEq M] in
theorem put_slots {s' : Slot} {x : M} : (t.put s (some m)).slots s' = some x ↔ s' = s ∧ m = x ∨ s' ≠ s ∧ t.slots s' = some x := by
  by_cases here : s' = s
  · rw [here, put_same]
    simp
  · rw [put_other _ here]
    simp [here]

omit [DecidableEq M] in
/-- A motion that has not been started has no slot. -/
theorem Ready.absent (ready : Ready D P G k m t) (s : Slot) : t.slots s ≠ some m :=
  fun now => ready.unstarted (ready.running s m now).1

omit [DecidableEq M] in
/-- The first slot of the motion's type is taken. -/
theorem Ready.begun (ready : Ready D P G k m t) (free : t.slots s = none) (type : slotsOf D m = s :: later)
    (unseen : ∀ s' ∈ seen, D.has m s' = false) : Half D P G k m (seen ++ [s]) (begun t m s) where
  typed s' d now := by
    rcases put_slots.mp now with ⟨rfl, rfl⟩ | ⟨_, before⟩
    · exact mem_slotsOf.mp (type ▸ List.mem_cons_self)
    · exact ready.typed s' d before
  part s' d now := by
    rcases put_slots.mp now with ⟨rfl, rfl⟩ | ⟨_, before⟩
    · exact ready.takesPart
    · exact ready.part s' d before
  running s' d now := by
    rcases put_slots.mp now with ⟨rfl, rfl⟩ | ⟨_, before⟩
    · exact ⟨List.mem_append_right _ List.mem_cons_self, fun was => ready.unstarted (ready.stoppedStarted m was)⟩
    · exact ⟨List.mem_append_left _ (ready.running s' d before).1, (ready.running s' d before).2⟩
  stoppedStarted d was := List.mem_append_left _ (ready.stoppedStarted d was)
  startedOnce := List.nodup_append_comm.mp (List.nodup_cons.mpr ⟨ready.unstarted, ready.startedOnce⟩)
  stoppedOnce := ready.stoppedOnce
  waiting d member := by
    refine ⟨fun was => ?_, (ready.waiting d member).2⟩
    rcases List.mem_append.mp was with old | new
    · exact (ready.waiting d member).1 old
    · cases List.mem_singleton.mp new
      exact ready.unqueued member
  waitingOnce := ready.waitingOnce
  order := by
    show ((t.started ++ [m]) ++ t.queuedMotions).Sublist t.given
    rw [List.append_assoc]
    exact ready.next
  few := ready.few
  past d old := by
    refine ⟨List.mem_append_left _ (ready.past d old).1, fun s' now => ?_⟩
    rcases put_slots.mp now with ⟨rfl, rfl⟩ | ⟨_, before⟩
    · exact ready.unstarted (ready.past m old).1
    · exact (ready.past d old).2 s' before
  takesPart := ready.takesPart
  others s' d now other x typed := by
    rcases put_slots.mp now with ⟨rfl, rfl⟩ | ⟨_, before⟩
    · exact absurd rfl other
    · have there := ready.whole s' d before x typed
      refine put_slots.mpr (.inr ⟨?_, there⟩)
      rintro rfl
      rw [free] at there
      cases there
  here s' := by
    constructor
    · intro now
      rcases put_slots.mp now with ⟨rfl, _⟩ | ⟨_, before⟩
      · exact ⟨List.mem_append_right _ List.mem_cons_self, mem_slotsOf.mp (type ▸ List.mem_cons_self)⟩
      · exact absurd before (ready.absent s')
    · rintro ⟨inside, typed⟩
      rcases List.mem_append.mp inside with old | new
      · rw [unseen s' old] at typed
        cases typed
      · exact put_slots.mpr (.inl ⟨List.mem_singleton.mp new, rfl⟩)
  first := ⟨s, later, type, List.mem_append_right _ List.mem_cons_self⟩

theorem Half.without (half : Half D P G k m seen t) : Good D P G k (without t m) where
  toBase := half.toBase.without m
  whole s d now s' typed := by
    obtain ⟨before, other⟩ := without_slots.mp now
    exact without_slots.mpr ⟨half.others s d before other s' typed, other⟩

omit [DecidableEq M] in
/-- When all slots have been seen, the motion is set. -/
theorem Half.good (half : Half D P G k m seen t) (all : ∀ s, D.has m s = true → s ∈ seen) : Good D P G k t where
  toBase := half.toBase
  whole s d now s' typed := by
    by_cases same : d = m
    · rw [same] at typed ⊢
      exact (half.here s').mpr ⟨all s' typed, typed⟩
    · exact half.others s d now same s' typed

omit [DecidableEq M] in
/-- The motion takes a later slot of its type. -/
theorem Half.put (half : Half D P G k m seen t) (free : t.slots s = none) (typed : D.has m s = true) :
    Half D P G k m (seen ++ [s]) (t.put s (some m)) where
  typed s' d now := by
    rcases put_slots.mp now with ⟨rfl, rfl⟩ | ⟨_, before⟩
    · exact typed
    · exact half.typed s' d before
  part s' d now := by
    rcases put_slots.mp now with ⟨rfl, rfl⟩ | ⟨_, before⟩
    · exact half.takesPart
    · exact half.part s' d before
  running s' d now := by
    rcases put_slots.mp now with ⟨rfl, rfl⟩ | ⟨_, before⟩
    · obtain ⟨first, later, type, inside⟩ := half.first
      exact half.running first m ((half.here first).mpr ⟨inside, mem_slotsOf.mp (type ▸ List.mem_cons_self)⟩)
    · exact half.running s' d before
  stoppedStarted := half.stoppedStarted
  startedOnce := half.startedOnce
  stoppedOnce := half.stoppedOnce
  waiting := half.waiting
  waitingOnce := half.waitingOnce
  order := half.order
  few := half.few
  past d old := by
    refine ⟨(half.past d old).1, fun s' now => ?_⟩
    rcases put_slots.mp now with ⟨_, rfl⟩ | ⟨_, before⟩
    · obtain ⟨first, later, type, inside⟩ := half.first
      exact (half.past m old).2 first ((half.here first).mpr ⟨inside, mem_slotsOf.mp (type ▸ List.mem_cons_self)⟩)
    · exact (half.past d old).2 s' before
  takesPart := half.takesPart
  others s' d now other x has := by
    rcases put_slots.mp now with ⟨_, rfl⟩ | ⟨_, before⟩
    · exact absurd rfl other
    · have there := half.others s' d before other x has
      refine put_slots.mpr (.inr ⟨?_, there⟩)
      rintro rfl
      rw [free] at there
      cases there
  here s' := by
    rw [put_slots, half.here, List.mem_append, List.mem_singleton]
    constructor
    · rintro (⟨rfl, _⟩ | ⟨_, inside, has⟩)
      · exact ⟨.inr rfl, typed⟩
      · exact ⟨.inl inside, has⟩
    · rintro ⟨inside, has⟩
      by_cases here : s' = s
      · exact .inl ⟨here, rfl⟩
      · exact .inr ⟨here, inside.resolve_right here, has⟩
  first := by
    obtain ⟨first, later, type, inside⟩ := half.first
    exact ⟨first, later, type, List.mem_append_left _ inside⟩

/-- The motion that is started has its first slot from now on, or it has finished and that was all its type. -/
theorem Sets.start (sets : Sets D P rec n) (bound : k ≤ n) (apt : Apt D P) (ready : Ready D P G k m t) (free : t.slots s = none)
    (type : slotsOf D m = s :: later) (unseen : ∀ s' ∈ seen, D.has m s' = false) :
    Leads (· = t.put s (some m)) (start D rec m)
      (fun _ u => Half D P G k m (seen ++ [s]) u ∨ (∀ s', D.has m s' = true → s' = s) ∧ Good D P G k u) (Good D P G k) := by
  have half : Half D P G k m (seen ++ [s]) (begun t m s) := ready.begun free type unseen
  have only (s' : Slot) (now : (begun t m s).slots s' = some m) : s' = s := by
    rcases put_slots.mp now with ⟨here, _⟩ | ⟨_, before⟩
    · exact here
    · exact absurd before (ready.absent s')
  rw [MotionManager.start]
  refine Leads.bind (Q := fun _ u => u = begun t m s) (.modify _ ?_) fun _ => ?_
  · rintro _ rfl
    rfl
  refine (sets.script (c := ∀ s', D.has m s' = true → s' = s) bound ?_ (fun _ rests => rests) ?_).weaken (fun _ now => now) ?_ fun _ now => now
  · intro raises
    refine half.good fun s' has => ?_
    have single : compound D m = false := by
      cases more : compound D m with
      | false => rfl
      | true => exact absurd raises (apt.start m ready.takesPart more)
    rw [single_of single (mem_slotsOf.mp (type ▸ List.mem_cons_self)) has]
    exact List.mem_append_right _ List.mem_cons_self
  · refine (removeMotion_leads fun s' => half.typed s' m).weaken (fun _ now => now) ?_ ?_
    · rintro _ u ⟨rfl, all⟩
      exact ⟨fun s' has => only s' (all s' has), half.without⟩
    · intro u refused
      rw [refused.first fun s' now => ?_]
      · exact half.without
      · rw [only s' now, type]
        rfl
  · rintro _ u (rfl | finished)
    · exact .inl half
    · exact .inr finished

/-- How far a motion has been set when some of the slots have been seen. -/
inductive Stage (D : Motions M) (P G : M → Prop) (k : ℕ) (m : M) (seen : List Slot) (t : Manager M) : Bool → Prop where
  | before (unseen : ∀ s ∈ seen, D.has m s = false) (ready : Ready D P G k m t) : Stage D P G k m seen t false
  | between (half : Half D P G k m seen t) : Stage D P G k m seen t true
  | done (all : ∀ s, D.has m s = true → s ∈ seen) (good : Good D P G k t) : Stage D P G k m seen t true

/-- A slot is made free. -/
theorem Sets.evict (sets : Sets D P rec n) (bound : k ≤ n) (apt : Apt D P) (good : Good D P G k t) :
    Leads (· = t) (evict D rec s)
      (fun _ u => u.slots s = none ∧ (u = t ∨ ∃ d, t.slots s = some d ∧ u = stopped t d)) (Good D P G k) := by
  rw [MotionManager.evict]
  refine Leads.get.bind fun v => .given fun u => ?_
  rintro ⟨rfl, rfl⟩
  split
  · next free =>
    refine .pure () ?_
    rintro _ rfl
    exact ⟨free, .inl rfl⟩
  · next d now =>
    refine (sets.stopMotion bound apt good now).weaken (fun _ now => now) ?_ fun _ now => now
    rintro _ u rfl
    exact ⟨if_pos now, .inr ⟨d, now, rfl⟩⟩

theorem Sets.evict_ready (sets : Sets D P rec n) (bound : k ≤ n) (apt : Apt D P) (ready : Ready D P G k m t) :
    Leads (· = t) (MotionManager.evict D rec s) (fun _ u => Ready D P G k m u ∧ u.slots s = none) (Good D P G k) := by
  refine (sets.evict bound apt ready.toGood).weaken (fun _ now => now) ?_ fun _ now => now
  rintro _ u ⟨free, rfl | ⟨d, now, rfl⟩⟩
  · exact ⟨ready, free⟩
  · exact ⟨ready.stopped now, free⟩

theorem Sets.evict_good (sets : Sets D P rec n) (bound : k ≤ n) (apt : Apt D P) :
    Leads (Good D P G k) (MotionManager.evict D rec s) (fun _ => Good D P G k) (Good D P G k) := by
  refine .given fun t good => (sets.evict bound apt good).weaken (fun _ now => now) ?_ fun _ now => now
  rintro _ u ⟨_, rfl | ⟨d, now, rfl⟩⟩
  · exact good
  · exact good.stopped now

/-- What is in the way of a half-way motion goes without a word. -/
theorem Half.evict (half : Half D P G k m seen t) (apt : Apt D P) (typed : D.has m s = true) (unseen : s ∉ seen) :
    Leads (· = t) (evict D rec s) (fun _ u => Half D P G k m seen u ∧ u.slots s = none) (fun _ => False) := by
  rw [MotionManager.evict]
  refine Leads.get.bind fun v => .given fun u => ?_
  rintro ⟨rfl, rfl⟩
  split
  · next free =>
    refine .pure () ?_
    rintro _ rfl
    exact ⟨half, free⟩
  · next d now =>
    have other : d ≠ m := by
      rintro rfl
      exact unseen ((half.here s).mp now).1
    have filled (s' : Slot) : v.slots s' = some d ↔ D.has d s' = true := ⟨half.typed s' d, half.others s d now other s'⟩
    obtain ⟨first, later, type, inside⟩ := half.first
    have apart : D.has d first = false := by
      by_contra meets
      have there := (filled first).mpr (eq_true_of_ne_false meets)
      rw [(half.here first).mpr ⟨inside, mem_slotsOf.mp (type ▸ List.mem_cons_self)⟩] at there
      exact other (Option.some_inj.mp there).symm
    have after : s ∈ later := by
      have among : s ∈ first :: later := type ▸ mem_slotsOf.mpr typed
      rcases List.mem_cons.mp among with rfl | after
      · exact absurd inside unseen
      · exact after
    have quiet : D.stop d = [] :=
      apt.clash m d half.takesPart (half.part s d now) (clashes_of type apart after (half.typed s d now))
    refine (quiet_stopMotion quiet filled).weaken (fun _ now => now) ?_ fun _ now => now
    rintro _ v rfl
    exact ⟨half.stopped now other, if_pos now⟩

/-- One part of `_setMotion`. -/
theorem Sets.place (sets : Sets D P rec n) (bound : k ≤ n) (apt : Apt D P) (order : Slot.all = seen ++ s :: later) (flag : Bool) :
    Leads (fun t => Stage D P G k m seen t flag) (place D rec m s flag) (fun now u => Stage D P G k m (seen ++ [s]) u now)
      (Good D P G k) := by
  have new : s ∉ seen := by
    have once : Slot.all.Nodup := by decide
    rw [order] at once
    exact fun old => (List.nodup_append.mp once).2.2 s old s List.mem_cons_self rfl
  rw [MotionManager.place]
  refine .given fun t stage => .ite (fun typed => ?_) fun untyped => .pure _ ?_
  · cases stage with
    | before unseen ready =>
      have type : slotsOf D m = s :: later.filter (D.has m) := by
        have none : seen.filter (D.has m) = [] := List.filter_eq_nil_iff.mpr fun s' inside => by simp [unseen s' inside]
        rw [slotsOf, order, List.filter_append, none, List.filter_cons_of_pos typed, List.nil_append]
      refine (sets.evict_ready bound apt ready).bind fun _ => .given fun u now => Leads.bind (Q := fun _ v => v = u.put s (some m)) (.modify _ ?_) fun _ =>
        Leads.bind (sets.start bound apt now.1 now.2 type unseen) fun _ => .pure true ?_
      · rintro _ rfl
        rfl
      · rintro v (half | ⟨only, good⟩)
        · exact .between half
        · refine .done (fun s' has => ?_) good
          rw [only s' has]
          exact List.mem_append_right _ List.mem_cons_self
    | between half =>
      have first : Leads (· = t) (MotionManager.evict D rec s) (fun _ u => Half D P G k m seen u ∧ u.slots s = none) (Good D P G k) :=
        (half.evict apt typed new).weaken (fun _ now => now) (fun _ _ now => now) fun _ never => never.elim
      refine first.bind fun _ => Leads.bind (Q := fun _ => Half D P G k m (seen ++ [s])) (.modify _ ?_) fun _ => .pure true ?_
      · rintro u ⟨now, free⟩
        exact now.put free typed
      · exact fun u now => .between now
    | done all _ => exact absurd (all s typed) new
  · rintro _ rfl
    cases stage with
    | before unseen ready =>
      refine .before (fun s' inside => ?_) ready
      rcases List.mem_append.mp inside with old | last
      · exact unseen s' old
      · rw [List.mem_singleton.mp last]
        exact eq_false_of_ne_true untyped
    | between half =>
      refine .between { half with here := fun s' => ?_, first := ?_ }
      · rw [half.here, List.mem_append, List.mem_singleton]
        constructor
        · exact fun both => ⟨.inl both.1, both.2⟩
        · rintro ⟨old | rfl, has⟩
          · exact ⟨old, has⟩
          · exact absurd has untyped
      · obtain ⟨first, rest, type, inside⟩ := half.first
        exact ⟨first, rest, type, List.mem_append_left _ inside⟩
    | done all good => exact .done (fun s' has => List.mem_append_left _ (all s' has)) good

theorem Sets.setMotionNow (sets : Sets D P rec n) (bound : k ≤ n) (apt : Apt D P) :
    Leads (Ready D P G k m) (setMotionNow D rec m) (fun _ => Good D P G k) (Good D P G k) := by
  rw [MotionManager.setMotionNow]
  have first := sets.place (G := G) (m := m) bound apt order_inPlane
  have second := sets.place (G := G) (m := m) bound apt order_depth
  have third := sets.place (G := G) (m := m) bound apt order_orientation
  refine ((first false).bind fun a => (second a).bind fun b => (third b).bind fun c => .pure () ?_).weaken ?_
    (fun _ _ now => now) fun _ now => now
  · intro u stage
    cases stage with
    | before _ ready => exact ready.toGood
    | between half => exact half.good fun s _ => mem_all s
    | done _ good => exact good
  · exact fun t ready => .before (fun s inside => by cases inside) ready

/-- As many motions as wait may be set one from within the other. -/
theorem sets_run (apt : Apt D P) (n : ℕ) : Sets D P (run D n) n := by
  induction n with
  | zero => exact fun G k m bound => absurd bound (Nat.not_lt_zero k)
  | succ n ih => exact fun G k m bound => ih.setMotionNow (Nat.le_of_lt_succ bound) apt

end

/-! ### Calls -/

section
variable {M : Type} [DecidableEq M] {D : Motions M} {P G : M → Prop} {n : ℕ} {t : Manager M}

/-- The motions that a call gives to the manager. -/
def given : Op M → List M
  | .setMotion m motions => m :: motions
  | _ => []

/-- The motions that may be set in a call. -/
def waiting (t : Manager M) : Op M → List M
  | .setMotion m motions => m :: motions
  | _ => t.queuedMotions

/-- The motions that may take part in a call. -/
def taking (t : Manager M) (op : Op M) : List M := Slot.all.filterMap t.slots ++ waiting t op

/-- A motion is given once, and not again when it has been started. -/
def Fresh (t : Manager M) (op : Op M) : Prop := (given op).Nodup ∧ ∀ m ∈ given op, m ∉ t.started

omit [DecidableEq M] in
theorem mem_taking_of_slot {op : Op M} {s : Slot} {m : M} (now : t.slots s = some m) : m ∈ taking t op :=
  List.mem_append_left _ (List.mem_filterMap.mpr ⟨s, mem_all s, now⟩)

/-- A call in which one motion is stopped, or the slots are left alone. -/
theorem Sets.stopSlot {rec : M → Io M Unit} {s : Slot} (sets : Sets D P rec n) (apt : Apt D P) :
    Leads (Good D P G n) (stopSlot D rec s) (fun _ => Good D P G n) (Good D P G n) := by
  rw [MotionManager.stopSlot]
  refine Leads.get.bind fun v => .given fun t => ?_
  rintro ⟨rfl, good⟩
  split
  · refine .throw _ ?_
    rintro _ rfl
    exact good
  · next m now =>
    refine (sets.stopMotion (Nat.le_refl n) apt good now).weaken (fun _ now => now) ?_ fun _ now => now
    rintro _ u rfl
    exact good.stopped now

/-- The manager between two calls. -/
abbrev Rest (D : Motions M) (t : Manager M) : Prop := Good D (fun _ => True) (fun _ => False) t.queuedMotions.length t

omit [DecidableEq M] in
theorem Good.rest (good : Good D P G n t) : Rest D t where
  toBase := { good.toBase with
    part := fun _ _ _ => trivial
    waiting := fun m member => ⟨(good.waiting m member).1, trivial⟩
    few := Nat.le_refl _
    past := fun _ never => never.elim }
  whole := good.whole

omit [DecidableEq M] in
theorem Good.narrow (good : Good D G (fun _ => False) n t) (slots : ∀ s m, t.slots s = some m → P m)
    (queued : ∀ m ∈ t.queuedMotions, P m) : Good D P (fun _ => False) n t where
  toBase := { good.toBase with
    part := slots
    waiting := fun m member => ⟨(good.waiting m member).1, queued m member⟩ }
  whole := good.whole

omit [DecidableEq M] in
/-- New motions are given in place of those that wait. -/
theorem Good.give {m : M} {motions : List M} (good : Good D G (fun _ => False) n t) (fresh : Fresh t (.setMotion m motions)) :
    Ready D (· ∈ taking t (.setMotion m motions)) (fun _ => False) motions.length m
      { t with queuedMotions := [] ++ motions, given := t.given ++ m :: motions } := by
  have within (d : M) (member : d ∈ m :: motions) : d ∈ taking t (.setMotion m motions) := List.mem_append_right _ member
  have once : (m :: motions).Nodup := fresh.1
  have started : t.started.Sublist t.given := (List.sublist_append_left _ _).trans good.order
  refine ⟨⟨{ good.toBase with part := ?_, waiting := ?_, waitingOnce := ?_, order := ?_, few := ?_ }, good.whole⟩, ?_, ?_, ?_, ?_⟩
  · exact fun s d now => mem_taking_of_slot now
  · exact fun d member => ⟨fresh.2 d (List.mem_cons_of_mem _ member), within d (List.mem_cons_of_mem _ member)⟩
  · exact (List.nodup_cons.mp once).2
  · exact started.append (List.sublist_cons_self m motions)
  · exact Nat.le_refl _
  · exact within m List.mem_cons_self
  · exact fresh.2 m List.mem_cons_self
  · exact (List.nodup_cons.mp once).1
  · exact started.append (List.Sublist.refl _)

/-- A call whose motions do not disturb one another leads to rest again, by return or by an exception. -/
theorem call_rest {op : Op M} (rest : Rest D t) (fresh : Fresh t op) (apt : Apt D (· ∈ taking t op)) :
    Leads (· = t) (call D op) (fun _ => Rest D) (Rest D) := by
  have sets (n : ℕ) : Sets D (· ∈ taking t op) (run D n) n := sets_run apt n
  -- All but `setMotion` begin with what they find.
  have found (queued : waiting t op = t.queuedMotions) {f : ℕ → Io M Unit}
      (keeps : ∀ n, Leads (Good D (· ∈ taking t op) (fun _ => False) n) (f n) (fun _ => Good D (· ∈ taking t op) (fun _ => False) n)
        (Good D (· ∈ taking t op) (fun _ => False) n)) :
      Leads (· = t) (do f (← get).queuedMotions.length) (fun _ => Rest D) (Rest D) := by
    refine Leads.get.bind fun v => .given fun u => ?_
    rintro ⟨rfl, rfl⟩
    refine (keeps _).weaken ?_ (fun _ _ good => good.rest) fun _ good => good.rest
    rintro _ rfl
    refine rest.narrow (fun s m now => mem_taking_of_slot now) fun m member => List.mem_append_right _ ?_
    rw [queued]
    exact member
  cases op with
  | setMotion m motions =>
    refine Leads.bind (Q := fun _ u => u = { t with queuedMotions := [], given := t.given ++ m :: motions }) (.modify _ ?_) fun _ =>
      Leads.bind (Q := fun _ => Ready D (· ∈ taking t (.setMotion m motions)) (fun _ => False) motions.length m) (.modify _ ?_) fun _ => ?_
    · rintro _ rfl
      rfl
    · rintro _ rfl
      exact rest.give fresh
    · exact (sets (motions.length + 1) _ motions.length m (Nat.lt_succ_self _)).weaken (fun _ now => now)
        (fun _ _ good => good.rest) fun _ good => good.rest
  | stopCurrentMotion =>
    refine found rfl (f := fun n => stopCurrentMotion D (run D n)) fun n => ?_
    have evicts (s : Slot) := (sets n).evict_good (G := fun _ => False) (s := s) (Nat.le_refl n) apt
    refine (evicts .inPlane).bind fun _ => (evicts .depth).bind fun _ => (evicts .orientation).bind fun _ => .modify _ fun u good => ?_
    refine ⟨{ good.toBase with waiting := ?_, waitingOnce := List.nodup_nil, order := ?_, few := Nat.zero_le _ }, good.whole⟩
    · exact fun m member => nomatch member
    · rw [List.append_nil]
      exact (List.sublist_append_left _ _).trans good.order
  | stopMotionOfType type =>
    refine found rfl (f := fun n => stopMotionOfType D (run D n) type) fun n => ?_
    rw [stopMotionOfType]
    exact .ite (fun _ => (sets n).stopSlot apt) fun _ => .ite (fun _ => (sets n).stopSlot apt) fun _ =>
      .ite (fun _ => (sets n).stopSlot apt) fun _ => .pure () fun _ good => good
  | finished m => exact found rfl (f := fun n => publishFinished D (run D n) m) fun n => (sets n).publishFinished (Nat.le_refl n)
  | background =>
    refine .modify _ ?_
    rintro _ rfl
    exact ⟨{ rest.toBase with }, rest.whole⟩
  | unbackground =>
    refine .modify _ ?_
    rintro _ rfl
    exact ⟨{ rest.toBase with }, rest.whole⟩

/-- What holds of the manager between calls: its slots have nothing or a motion that runs, in all the slots of its
    type, no motion is started or stopped twice, and motions start in the order in which they were given. -/
structure Orderly (D : Motions M) (t : Manager M) : Prop where
  running : ∀ s m, t.slots s = some m → m ∈ t.started ∧ m ∉ t.stopped
  filled : ∀ s m, t.slots s = some m → ∀ s', t.slots s' = some m ↔ D.has m s' = true
  startedOnce : t.started.Nodup
  stoppedOnce : t.stopped.Nodup
  order : (t.started ++ t.queuedMotions).Sublist t.given

theorem slots_orderly (D : Motions M) (acts : List (Op M))
    (each : Each (next D) (fun t op => Fresh t op ∧ Apt D (· ∈ taking t op)) .initial acts) :
    Orderly D (after (next D) .initial acts) := by
  have start : Rest D .initial := by
    refine ⟨⟨?_, ?_, ?_, ?_, List.nodup_nil, List.nodup_nil, ?_, List.nodup_nil, List.Sublist.refl _, Nat.le_refl _, ?_⟩, ?_⟩
    all_goals intros; contradiction
  have step (t : Manager M) (op : Op M) (rest : Rest D t) (now : Fresh t op ∧ Apt D (· ∈ taking t op)) : Rest D (next D t op) :=
    (call_rest rest now.1 now.2).final rfl
  have rest : Rest D (after (next D) .initial acts) := after_invariant step start each
  exact ⟨rest.running, fun s m now s' => ⟨rest.typed s' m, rest.whole s m now s'⟩, rest.startedOnce, rest.stoppedOnce, rest.order⟩

end

/-- Motions of several types that only run. -/
def plain : Motions ℕ where
  type m := [2, 3, 2, 5].getD m 7
  start _ := []
  stop _ := []

theorem slots_orderly_plain :
    Orderly plain (after (next plain) .initial [.setMotion 0 [], .setMotion 1 [2, 3], .finished 1, .stopMotionOfType 2]) :=
  slots_orderly plain _ ⟨⟨⟨by decide, by decide⟩, fun _ _ => List.not_mem_nil, fun _ _ _ => List.not_mem_nil, fun _ _ _ _ _ => rfl⟩,
    ⟨⟨by decide, by decide⟩, fun _ _ => List.not_mem_nil, fun _ _ _ => List.not_mem_nil, fun _ _ _ _ _ => rfl⟩,
    ⟨⟨by decide, by decide⟩, fun _ _ => List.not_mem_nil, fun _ _ _ => List.not_mem_nil, fun _ _ _ _ _ => rfl⟩,
    ⟨⟨by decide, by decide⟩, fun _ _ => List.not_mem_nil, fun _ _ _ => List.not_mem_nil, fun _ _ _ _ _ => rfl⟩, trivial⟩

/-- The same motions, where the first finishes when it is stopped. -/
def finishing : Motions ℕ := { plain with stop := fun m => if m = 0 then [.finish] else [] }

/-- Motion 1 takes the first of its two slots, and motion 0 leaves the other. When it finishes, motion 2 takes
    that slot, and the assertion that motion 0 is there fails. -/
theorem not_slots_orderly :
    ¬ ∀ (D : Motions ℕ) (acts : List (Op ℕ)), Each (next D) Fresh .initial acts → Orderly D (after (next D) .initial acts) := by
  intro orderly
  have filled := (orderly finishing [.setMotion 0 [], .setMotion 1 [2]]
    ⟨⟨by decide, by decide⟩, ⟨by decide, by decide⟩, trivial⟩).filled .inPlane 1 (by decide) .depth
  revert filled
  decide

end Tortuga.MotionSlots
