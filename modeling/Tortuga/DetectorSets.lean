import Tortuga.BackgroundThreads
import Tortuga.VisionRunners

/-!
Which detectors a `VisionRunner` gives its images to, and when it is in the background
(`VisionRunner.cpp`): its changes are done in the order they were made, by one thread at a time, when
nobody begins with them while another is at it, and the background thread does not stop itself.
-/
namespace Tortuga.DetectorSets
open Tortuga.Machines
open Tortuga.Updatables (Updatable)
open Tortuga.VisionRunners
set_option linter.unusedSimpArgs false

section
variable {Caller D : Type}

/-- Where an agent has to do with the detectors. -/
def inside : Position D → Bool
  | .pops _ _ | .applies _ _ _ | .compares _ _ | .backgrounds _ | .unbackgrounds _ | .delivers _ | .stops => true
  | .out | .asks _ | .sizes _ | .waits _ | .records _ | .toggles _ => false

/-- In `recordFrame`, after `update` has put off a change of the background. -/
def late : Origin → Bool
  | .frame toggle => toggle
  | .change | .update => false

/-- Where `update` has put off a change of the background. -/
def pending : Position D → Bool
  | .sizes origin | .pops origin _ | .applies origin _ _ | .compares origin _ | .backgrounds origin | .unbackgrounds origin
  | .waits origin => late origin
  | .records toggle | .delivers toggle | .toggles toggle => toggle
  | .stops => true
  | .out | .asks _ => false

variable {s : VisionRunner Caller D} {agent : Agent Caller} {p : Position D}

/-- No change of the background is put off. -/
def Settled (s : VisionRunner Caller D) : Prop := ∀ a, pending (s.position a) = false

/-- The queue has been drained. -/
def Drained (s : VisionRunner Caller D) : Prop :=
  s.detectorChanges = [] ∧ ∀ a, inside (s.position a) = false ∧ pending (s.position a) = false

/-- The changes that have been made. -/
def made (acts : List (Act Caller D)) : List (Change D) := acts.filterMap fun
  | .change _ change _ => some change
  | .proceed _ _ | .loop _ => none

/-- What is asked of an agent where it goes on: it begins with the detectors when nobody else has to do with them, a background
    thread does not stop the background nor start it, and `update` stops it only when there are no detectors. -/
def Fine (s : VisionRunner Caller D) (agent : Agent Caller) : Position D → Prop
  | .sizes _ => ∀ b, inside (s.position b) = false
  | .toggles toggle => toggle = true → (∀ b, inside (s.position b) = false) ∧ s.updatable.backgrounded = true ∧ s.detectors = ∅
  | .backgrounds _ => ∀ t, agent = .runner t → s.updatable.backgrounded = true
  | .unbackgrounds _ => ∀ t, agent ≠ .runner t
  | .out | .asks _ | .pops _ _ | .applies _ _ _ | .compares _ _ | .waits _ | .records _ | .delivers _ | .stops => True

def Sound (s : VisionRunner Caller D) : Act Caller D → Prop
  | .proceed agent _ => Fine s agent (s.position agent)
  | .change _ _ _ | .loop _ => True

/-- The background is as it should be, for so many detectors. -/
def Right (s : VisionRunner Caller D) (size : ℕ) : Prop := s.updatable.backgrounded = true ↔ size ≠ 0

/-- What an agent relies on. -/
def Relies (s : VisionRunner Caller D) : Position D → Prop
  | .pops _ startSize | .applies _ startSize _ | .compares _ startSize => Settled s → Right s startSize
  | .backgrounds _ => s.detectors ≠ ∅
  | .unbackgrounds _ => s.detectors = ∅
  | .delivers _ => Settled s → Right s s.detectors.card
  | .stops => s.detectors = ∅
  | .out | .asks _ | .sizes _ | .waits _ | .records _ | .toggles _ => True

/-- What holds while agents go on so. -/
structure Tidy (s : VisionRunner Caller D) : Prop where
  alone : ∀ a b, inside (s.position a) = true → inside (s.position b) = true → a = b
  relies : ∀ a, Relies s (s.position a)
  right : (∀ a, inside (s.position a) = false) → Settled s → Right s s.detectors.card
  never : ∀ t, s.updatable.place (.runner t) = .out

theorem tidy_start : Tidy (start : VisionRunner Caller D) where
  alone a b first := by simp [start, inside] at first
  relies a := trivial
  right _ _ := by simp [Right, start, Updatables.start]
  never t := rfl

theorem relies_outside (outside : inside p = false) : Relies s p := by
  cases p <;> trivial

/-- What another agent relies on stays when the detectors and the background do. -/
theorem relies_same {u : VisionRunner Caller D} (relied : Relies s p) (detectors : u.detectors = s.detectors)
    (flag : u.updatable.backgrounded = s.updatable.backgrounded) (settles : Settled u → Settled s) : Relies u p := by
  cases p with
  | pops | applies | compares | delivers =>
    intro settled
    have right := relied (settles settled)
    rw [Right, ← flag] at right
    simpa only [Right, detectors] using right
  | backgrounds | unbackgrounds | stops =>
    rw [Relies, detectors]
    exact relied
  | out | asks | sizes | waits | records | toggles => trivial

variable [DecidableEq Caller]

/-- An agent that has to do with the detectors alone goes on. -/
theorem tidy_within {u : VisionRunner Caller D} (position : u.position = Function.update s.position agent p)
    (others : ∀ b, b ≠ agent → inside (s.position b) = false) (relies : Relies u p)
    (right : inside p = false → Settled u → Right u u.detectors.card) (never : ∀ t, u.updatable.place (.runner t) = .out) : Tidy u := by
  have other : ∀ b, b ≠ agent → inside (u.position b) = false := by
    intro b ne
    rw [position, Function.update_of_ne ne]
    exact others b ne
  refine ⟨fun a b first second => ?_, fun a => ?_, fun none settled => ?_, never⟩
  · have left : a = agent := by
      by_contra ne
      rw [other a ne] at first
      contradiction
    have right : b = agent := by
      by_contra ne
      rw [other b ne] at second
      contradiction
    rw [left, right]
  · by_cases here : a = agent
    · rw [here, position, Function.update_self]
      exact relies
    · exact relies_outside (other a here)
  · have now := none agent
    rw [position, Function.update_self] at now
    exact right now settled

/-- An agent goes on that has to do with the detectors alone, and still has. -/
theorem tidy_stays {u : VisionRunner Caller D} (position : u.position = Function.update s.position agent p)
    (others : ∀ b, b ≠ agent → inside (s.position b) = false) (relies : Relies u p) (stays : inside p = true)
    (never : ∀ t, u.updatable.place (.runner t) = .out) : Tidy u := by
  refine tidy_within position others relies (fun left => ?_) never
  rw [stays] at left
  contradiction

/-- What is put off stays so. -/
theorem settled_before {u : VisionRunner Caller D} (position : u.position = Function.update s.position agent p)
    (still : pending p = false → pending (s.position agent) = false) (settled : Settled u) : Settled s := by
  intro b
  have now := settled b
  rw [position] at now
  by_cases here : b = agent
  · rw [here, Function.update_self] at now
    rw [here]
    exact still now
  · rwa [Function.update_of_ne here] at now

/-- An agent goes on that has nothing to do with the detectors, before and after. -/
theorem Tidy.outside (tidy : Tidy s) {u : VisionRunner Caller D} (position : u.position = Function.update s.position agent p)
    (before : inside (s.position agent) = false) (after : inside p = false) (still : pending p = false → pending (s.position agent) = false)
    (detectors : u.detectors = s.detectors) (flag : u.updatable.backgrounded = s.updatable.backgrounded)
    (never : ∀ t, u.updatable.place (.runner t) = .out) : Tidy u := by
  have same : ∀ b, inside (u.position b) = inside (s.position b) := by
    intro b
    rw [position]
    by_cases here : b = agent
    · rw [here, Function.update_self, before, after]
    · rw [Function.update_of_ne here]
  have settles := settled_before position still
  refine ⟨fun a b first second => ?_, fun a => ?_, fun none settled => ?_, never⟩
  · rw [same] at first second
    exact tidy.alone a b first second
  · by_cases here : a = agent
    · rw [here]
      refine relies_outside ?_
      rw [position, Function.update_self]
      exact after
    · rw [position, Function.update_of_ne here]
      exact relies_same (tidy.relies a) detectors flag settles
  · rw [Right, flag, detectors]
    exact tidy.right (fun a => (same a).symm.trans (none a)) (settles settled)

omit [DecidableEq Caller] in
/-- Who is inside has what the position relies on, and nobody else is inside. -/
theorem Tidy.within (tidy : Tidy s) (here : s.position agent = p) (within : inside p = true) :
    Relies s p ∧ ∀ b, b ≠ agent → inside (s.position b) = false := by
  rw [← here] at within ⊢
  refine ⟨tidy.relies agent, ?_⟩
  intro b ne
  rw [Bool.eq_false_iff]
  intro there
  exact ne (tidy.alone b agent there within)

theorem advance_flag {u u' : Updatable (Agent Caller)} (advanced : u.advance agent = some u') : u'.backgrounded = u.backgrounded := by
  cases BackgroundThreads.advance_cases advanced with
  | locked | awaits | joins | resets | starts => rfl
  | cleaned call => cases call <;> rfl

/-- A background thread that is in no call is in none after a call has gone on. -/
theorem advance_never {u u' : Updatable (Agent Caller)} (never : ∀ t, u.place (.runner t) = .out) (advanced : u.advance agent = some u') :
    ∀ t, u'.place (.runner t) = .out := by
  intro t
  have caller : .runner t ≠ agent := by
    rintro rfl
    simp [Updatable.advance, never t] at advanced
  obtain ⟨place, moved⟩ := BackgroundThreads.advance_place advanced
  rw [moved, Function.update_of_ne caller]
  exact never t

/-- A background thread calls `background` in the background only. -/
theorem background_never {u : Updatable (Agent Caller)} (never : ∀ t, u.place (.runner t) = .out)
    (fine : ∀ t, agent = .runner t → u.backgrounded = true) (interval : Int) : ∀ t, (u.background agent interval).place (.runner t) = .out := by
  intro t
  rw [Updatable.background]
  split
  · exact never t
  · next unset =>
    have caller : .runner t ≠ agent := by
      rintro rfl
      exact unset (fine t rfl)
    exact (Function.update_of_ne caller _ _).trans (never t)

theorem unbackground_never {u : Updatable (Agent Caller)} (never : ∀ t, u.place (.runner t) = .out) (caller : ∀ t, agent ≠ .runner t) :
    ∀ t, (u.unbackground agent true).place (.runner t) = .out := by
  intro t
  simp only [Updatable.unbackground, Bool.not_true, Bool.and_false, Bool.false_eq_true, if_false, if_true]
  exact (Function.update_of_ne (Ne.symm (caller t)) _ _).trans (never t)

variable [DecidableEq D]

omit [DecidableEq D] in
/-- What is done about the background after the queue was drained. -/
theorem tidy_compared {origin : Origin} {startSize : ℕ} (here : s.position agent = .compares origin startSize)
    (others : ∀ b, b ≠ agent → inside (s.position b) = false) (relied : Settled s → Right s startSize)
    (never : ∀ t, s.updatable.place (.runner t) = .out) : Tidy (s.put agent (s.compared origin startSize)) := by
  have putOff : ∀ p : Position D, ¬ origin.canBackground = true → p = origin.next true →
      pending p = true ∧ inside p = false ∧ Relies (s.put agent p) p := by
    rintro p update rfl
    cases origin with
    | update => exact ⟨rfl, rfl, trivial⟩
    | change | frame => exact absurd rfl update
  rw [VisionRunner.compared]
  split
  · next more =>
    split
    · exact tidy_stays rfl others (Finset.card_pos.mp more.2).ne_empty rfl never
    · next update =>
      obtain ⟨now, _, relies⟩ := putOff _ update rfl
      refine tidy_within rfl others relies (fun _ settled => ?_) never
      have not := settled agent
      simp [VisionRunner.put, now] at not
  · next same =>
    split
    · next none =>
      split
      · exact tidy_stays rfl others (Finset.card_eq_zero.mp none.2.symm) rfl never
      · next update =>
        obtain ⟨now, _, relies⟩ := putOff _ update rfl
        refine tidy_within rfl others relies (fun _ settled => ?_) never
        have not := settled agent
        simp [VisionRunner.put, now] at not
    · next other =>
      have size : startSize ≠ 0 ↔ s.detectors.card ≠ 0 := by omega
      have right : Settled s → Right s s.detectors.card := fun settled => (relied settled).trans size
      cases origin with
      | change =>
        exact tidy_within rfl others trivial (fun _ settled => right (settled_before rfl (fun _ => by rw [here]; rfl) settled)) never
      | update =>
        exact tidy_within rfl others trivial (fun _ settled => right (settled_before rfl (fun _ => by rw [here]; rfl) settled)) never
      | frame toggle =>
        exact tidy_stays rfl others (fun settled => right (settled_before rfl (by rw [here]; exact id) settled)) rfl never

theorem Tidy.proceed {u : VisionRunner Caller D} {newFrame : Bool} (tidy : Tidy s) (fine : Fine s agent (s.position agent))
    (proceeded : s.proceed agent newFrame = some u) : Tidy u := by
  rw [VisionRunner.proceed] at proceeded
  cases here : s.position agent with
  | out =>
    rw [here] at proceeded
    contradiction
  | asks join =>
    simp only [here] at proceeded
    obtain rfl := Option.some_inj.mp proceeded
    refine tidy.outside rfl (by rw [here]; rfl) ?_ (fun _ => by rw [here]; rfl) rfl rfl tidy.never
    split <;> rfl
  | sizes origin =>
    simp only [here] at proceeded
    rw [here] at fine
    obtain rfl := Option.some_inj.mp proceeded
    refine tidy_stays rfl (fun b _ => fine b) (fun settled => ?_) rfl tidy.never
    exact tidy.right fine (settled_before rfl (by rw [here]; exact id) settled)
  | pops origin startSize =>
    obtain ⟨relied, others⟩ := tidy.within here rfl
    simp only [here] at proceeded
    split at proceeded
    · obtain rfl := Option.some_inj.mp proceeded
      exact tidy_stays rfl others (fun settled => relied (settled_before rfl (by rw [here]; exact id) settled)) rfl tidy.never
    · obtain rfl := Option.some_inj.mp proceeded
      exact tidy_stays rfl others (fun settled => relied (settled_before rfl (by rw [here]; exact id) settled)) rfl tidy.never
  | applies origin startSize change =>
    obtain ⟨relied, others⟩ := tidy.within here rfl
    simp only [here] at proceeded
    obtain rfl := Option.some_inj.mp proceeded
    exact tidy_stays rfl others (fun settled => relied (settled_before rfl (by rw [here]; exact id) settled)) rfl tidy.never
  | compares origin startSize =>
    obtain ⟨relied, others⟩ := tidy.within here rfl
    simp only [here] at proceeded
    obtain rfl := Option.some_inj.mp proceeded
    exact tidy_compared here others relied tidy.never
  | backgrounds origin =>
    obtain ⟨(some : s.detectors ≠ ∅), others⟩ := tidy.within here rfl
    rw [here] at fine
    simp only [here] at proceeded
    obtain rfl := Option.some_inj.mp proceeded
    refine tidy_within rfl others trivial (fun _ _ => ?_) (background_never tidy.never fine _)
    have flag : (s.updatable.background agent (-1)).backgrounded = true := by
      rw [Updatable.background]
      split
      · assumption
      · rfl
    simp [Right, VisionRunner.put, flag, some]
  | unbackgrounds origin =>
    obtain ⟨(none : s.detectors = ∅), others⟩ := tidy.within here rfl
    rw [here] at fine
    simp only [here] at proceeded
    obtain rfl := Option.some_inj.mp proceeded
    refine tidy_within rfl others trivial (fun _ _ => ?_) (unbackground_never tidy.never fine)
    simp [Right, VisionRunner.put, Updatable.unbackground, Updatable.put, none]
  | waits origin =>
    simp only [here] at proceeded
    split at proceeded
    · obtain rfl := Option.some_inj.mp proceeded
      cases origin with
      | change => exact tidy.outside rfl (by rw [here]; rfl) rfl (fun _ => by rw [here]; rfl) rfl rfl tidy.never
      | update => exact tidy.outside rfl (by rw [here]; rfl) rfl (fun _ => by rw [here]; rfl) rfl rfl tidy.never
      | frame toggle => exact tidy.outside rfl (by rw [here]; rfl) rfl (by rw [here]; exact id) rfl rfl tidy.never
    · obtain ⟨updatable, advanced, rfl⟩ := Option.map_eq_some_iff.mp proceeded
      exact tidy.outside (Function.update_eq_self agent s.position).symm (by rw [here]; rfl) (by rw [here]; rfl) id rfl
        (advance_flag advanced) (advance_never tidy.never advanced)
  | records toggle =>
    simp only [here] at proceeded
    obtain rfl := Option.some_inj.mp proceeded
    refine tidy.outside rfl (by rw [here]; rfl) ?_ (fun late => ?_) rfl rfl tidy.never
    · split <;> rfl
    · rw [here]
      split at late <;> exact late
  | delivers toggle =>
    obtain ⟨relied, others⟩ := tidy.within here rfl
    simp only [here] at proceeded
    obtain rfl := Option.some_inj.mp proceeded
    exact tidy_within rfl others trivial (fun _ settled => relied (settled_before rfl (by rw [here]; exact id) settled)) tidy.never
  | toggles toggle =>
    rw [here] at fine
    simp only [here] at proceeded
    obtain rfl := Option.some_inj.mp proceeded
    cases toggle with
    | false => exact tidy.outside rfl (by rw [here]; rfl) rfl (fun _ => by rw [here]; rfl) rfl rfl tidy.never
    | true =>
      obtain ⟨alone, set, none⟩ := fine rfl
      rw [if_pos rfl, if_pos set]
      exact tidy_stays rfl (fun b _ => alone b) none rfl tidy.never
  | stops =>
    obtain ⟨(none : s.detectors = ∅), others⟩ := tidy.within here rfl
    simp only [here] at proceeded
    obtain rfl := Option.some_inj.mp proceeded
    have kept : ∀ t, (s.updatable.unbackground agent false).place (.runner t) = .out := by
      intro t
      rw [Updatable.unbackground]
      split <;> exact tidy.never t
    refine tidy_within rfl others trivial (fun _ _ => ?_) kept
    have flag : (s.updatable.unbackground agent false).backgrounded = false := by
      rw [Updatable.unbackground]
      split
      · simp_all
      · rfl
    simp [Right, VisionRunner.put, flag, none]

theorem Tidy.step {u : VisionRunner Caller D} {a : Act Caller D} (tidy : Tidy s) (sound : Sound s a) (stepped : step s a = some u) :
    Tidy u := by
  cases a with
  | change c change join =>
    obtain ⟨out, same⟩ := Option.ite_none_right_eq_some.mp stepped
    obtain rfl := Option.some_inj.mp same
    exact tidy.outside rfl (by rw [out]; rfl) rfl (fun _ => by rw [out]; rfl) rfl rfl tidy.never
  | proceed agent newFrame => exact tidy.proceed sound stepped
  | loop t =>
    obtain ⟨out, looped⟩ := Option.ite_none_right_eq_some.mp stepped
    obtain ⟨updatable, gone, rfl⟩ := Option.map_eq_some_iff.mp looped
    obtain ⟨place, flag⟩ := BackgroundThreads.loop_frame gone
    have never : ∀ t, updatable.place (.runner t) = .out := by
      rw [place]
      exact tidy.never
    split
    · exact tidy.outside rfl (by rw [out]; rfl) rfl (fun _ => by rw [out]; rfl) rfl flag never
    · exact tidy.outside (Function.update_eq_self (.runner t) s.position).symm (by rw [out]; rfl) (by rw [out]; rfl) id rfl flag never

/-! ### The order of the changes -/

omit [DecidableEq Caller] [DecidableEq D] in
/-- The change that has been taken from the queue and not yet done. -/
def applying : Position D → Option (Change D)
  | .applies _ _ change => some change
  | .out | .asks _ | .sizes _ | .pops _ _ | .compares _ _ | .backgrounds _ | .unbackgrounds _ | .waits _ | .records _ | .delivers _
  | .toggles _ | .stops => none

/-- The detectors after some changes, one after the other. -/
def result (changes : List (Change D)) : Finset D := changes.foldl (fun detectors change => change.apply detectors) ∅

/-- The changes were made in this order: those that have been done, one that is being done, and those in the queue. -/
def Ordered (changes : List (Change D)) (s : VisionRunner Caller D) : Prop :=
  ∃ processed held, changes = processed ++ held ++ s.detectorChanges ∧ s.detectors = result processed ∧
    (∀ a change, applying (s.position a) = some change → held = [change]) ∧ ∀ change ∈ held, ∃ a, applying (s.position a) = some change

omit [DecidableEq Caller] in
theorem Ordered.same {changes : List (Change D)} {u : VisionRunner Caller D} (ordered : Ordered changes s)
    (queue : u.detectorChanges = s.detectorChanges) (detectors : u.detectors = s.detectors)
    (held : ∀ a, applying (u.position a) = applying (s.position a)) : Ordered changes u := by
  obtain ⟨processed, h, order, done, first, second⟩ := ordered
  refine ⟨processed, h, by rw [queue]; exact order, by rw [detectors]; exact done, fun a change => ?_, fun change member => ?_⟩
  · rw [held]
    exact first a change
  · obtain ⟨a, applies⟩ := second change member
    exact ⟨a, by rw [held]; exact applies⟩

omit [DecidableEq D] in
theorem applying_moves {u : VisionRunner Caller D} (position : u.position = Function.update s.position agent p)
    (same : applying p = applying (s.position agent)) (a : Agent Caller) : applying (u.position a) = applying (s.position a) := by
  rw [position]
  by_cases here : a = agent
  · rw [here, Function.update_self, same]
  · rw [Function.update_of_ne here]

omit [DecidableEq Caller] [DecidableEq D] in
theorem applying_alone (tidy : Tidy s) (within : inside (s.position agent) = true) : ∀ b, b ≠ agent → applying (s.position b) = none := by
  intro b ne
  have outside := (tidy.within rfl within).2 b ne
  cases h : s.position b <;> rw [h] at outside <;> first | rfl | contradiction

/-- The next change is taken from the queue. -/
theorem Ordered.popped {changes : List (Change D)} {origin : Origin} {startSize : ℕ} {change : Change D} {rest : List (Change D)}
    (ordered : Ordered changes s) (tidy : Tidy s) (here : s.position agent = .pops origin startSize) (queue : s.detectorChanges = change :: rest) :
    Ordered changes ({ s with detectorChanges := rest }.put agent (.applies origin startSize change)) := by
  obtain ⟨processed, held, order, done, first, second⟩ := ordered
  have calm : ∀ b, b ≠ agent → applying (s.position b) = none := applying_alone tidy (by rw [here]; rfl)
  have none : held = [] := by
    refine List.eq_nil_iff_forall_not_mem.mpr fun change member => ?_
    obtain ⟨a, applies⟩ := second change member
    by_cases same : a = agent
    · rw [same, here] at applies
      contradiction
    · rw [calm a same] at applies
      contradiction
  refine ⟨processed, [change], ?_, done, fun a other applies => ?_, fun other member => ⟨agent, ?_⟩⟩
  · rw [order, none, queue]
    simp [VisionRunner.put]
  · by_cases same : a = agent
    · simp only [VisionRunner.put, same, Function.update_self] at applies
      rw [Option.some_inj.mp applies]
    · simp only [VisionRunner.put, Function.update_of_ne same, calm a same] at applies
      contradiction
  · simp only [VisionRunner.put, Function.update_self]
    rw [List.mem_singleton.mp member]
    rfl

/-- The change that was taken from the queue is done. -/
theorem Ordered.applied {changes : List (Change D)} {origin : Origin} {startSize : ℕ} {change : Change D} (ordered : Ordered changes s)
    (tidy : Tidy s) (here : s.position agent = .applies origin startSize change) :
    Ordered changes ({ s with detectors := change.apply s.detectors }.put agent (.pops origin startSize)) := by
  obtain ⟨processed, held, order, done, first, _⟩ := ordered
  have calm : ∀ b, b ≠ agent → applying (s.position b) = none := applying_alone tidy (by rw [here]; rfl)
  have mine : held = [change] := first agent change (by rw [here]; rfl)
  refine ⟨processed ++ [change], [], ?_, ?_, fun a other applies => ?_, nofun⟩
  · rw [order, mine]
    simp [VisionRunner.put]
  · simp [VisionRunner.put, result, done]
  · by_cases same : a = agent
    · simp only [VisionRunner.put, same, Function.update_self] at applies
      contradiction
    · simp only [VisionRunner.put, Function.update_of_ne same, calm a same] at applies
      contradiction

/-- An agent that goes on moves no other. -/
theorem proceed_position {u : VisionRunner Caller D} {newFrame : Bool} (proceeded : s.proceed agent newFrame = some u) :
    ∃ p, u.position = Function.update s.position agent p := by
  rw [VisionRunner.proceed] at proceeded
  cases here : s.position agent with
  | out =>
    rw [here] at proceeded
    contradiction
  | pops =>
    simp only [here] at proceeded
    split at proceeded
    · obtain rfl := Option.some_inj.mp proceeded
      exact ⟨_, rfl⟩
    · obtain rfl := Option.some_inj.mp proceeded
      exact ⟨_, rfl⟩
  | waits =>
    simp only [here] at proceeded
    split at proceeded
    · obtain rfl := Option.some_inj.mp proceeded
      exact ⟨_, rfl⟩
    · obtain ⟨updatable, advanced, rfl⟩ := Option.map_eq_some_iff.mp proceeded
      exact ⟨_, (Function.update_eq_self agent s.position).symm⟩
  | asks | sizes | applies | compares | backgrounds | unbackgrounds | records | delivers | toggles | stops =>
    simp only [here] at proceeded
    obtain rfl := Option.some_inj.mp proceeded
    exact ⟨_, rfl⟩

/-- Only where an agent takes a change from the queue or does it, something happens to them. -/
theorem Ordered.proceed {changes : List (Change D)} {u : VisionRunner Caller D} {newFrame : Bool} (ordered : Ordered changes s)
    (tidy : Tidy s) (proceeded : s.proceed agent newFrame = some u) : Ordered changes u := by
  rw [VisionRunner.proceed] at proceeded
  cases here : s.position agent with
  | out =>
    rw [here] at proceeded
    contradiction
  | pops origin startSize =>
    simp only [here] at proceeded
    split at proceeded
    · obtain rfl := Option.some_inj.mp proceeded
      exact ordered.same rfl rfl (applying_moves rfl (by rw [here]; rfl))
    · next change rest queue =>
      obtain rfl := Option.some_inj.mp proceeded
      exact ordered.popped tidy here queue
  | applies origin startSize change =>
    simp only [here] at proceeded
    obtain rfl := Option.some_inj.mp proceeded
    exact ordered.applied tidy here
  | waits origin =>
    simp only [here] at proceeded
    split at proceeded
    · obtain rfl := Option.some_inj.mp proceeded
      refine ordered.same rfl rfl (applying_moves rfl ?_)
      rw [here]
      cases origin <;> rfl
    · obtain ⟨updatable, advanced, rfl⟩ := Option.map_eq_some_iff.mp proceeded
      exact ordered.same rfl rfl fun _ => rfl
  | compares origin startSize =>
    simp only [here] at proceeded
    obtain rfl := Option.some_inj.mp proceeded
    refine ordered.same rfl rfl (applying_moves rfl ?_)
    rw [here, VisionRunner.compared]
    cases origin <;> split <;> (try split) <;> rfl
  | toggles toggle =>
    simp only [here] at proceeded
    obtain rfl := Option.some_inj.mp proceeded
    refine ordered.same rfl rfl (applying_moves rfl ?_)
    rw [here]
    split
    · split <;> rfl
    · rfl
  | asks | records =>
    simp only [here] at proceeded
    obtain rfl := Option.some_inj.mp proceeded
    refine ordered.same rfl rfl (applying_moves rfl ?_)
    rw [here]
    split <;> rfl
  | sizes | backgrounds | unbackgrounds | delivers | stops =>
    simp only [here] at proceeded
    obtain rfl := Option.some_inj.mp proceeded
    exact ordered.same rfl rfl (applying_moves rfl (by rw [here]; rfl))

theorem Ordered.step {changes : List (Change D)} {u : VisionRunner Caller D} {a : Act Caller D} (ordered : Ordered changes s) (tidy : Tidy s)
    (stepped : step s a = some u) : Ordered (changes ++ made [a]) u := by
  cases a with
  | change c change join =>
    obtain ⟨out, same⟩ := Option.ite_none_right_eq_some.mp stepped
    obtain rfl := Option.some_inj.mp same
    obtain ⟨processed, held, order, done, first, second⟩ := ordered
    have moved := applying_moves (s := s) (u := { s with detectorChanges := s.detectorChanges ++ [change] }.put (.caller c) (.asks join)) rfl
      (by rw [out]; rfl)
    refine ⟨processed, held, ?_, done, fun a change => ?_, fun change member => ?_⟩
    · rw [order]
      simp [made, VisionRunner.put]
    · rw [moved]
      exact first a change
    · obtain ⟨a, applies⟩ := second change member
      exact ⟨a, by rw [moved]; exact applies⟩
  | proceed agent newFrame =>
    rw [show made [(Act.proceed agent newFrame : Act Caller D)] = [] from rfl, List.append_nil]
    exact ordered.proceed tidy stepped
  | loop t =>
    rw [show made [(Act.loop t : Act Caller D)] = [] from rfl, List.append_nil]
    obtain ⟨out, looped⟩ := Option.ite_none_right_eq_some.mp stepped
    obtain ⟨updatable, gone, rfl⟩ := Option.map_eq_some_iff.mp looped
    split
    · exact ordered.same rfl rfl (applying_moves rfl (by rw [out]; rfl))
    · exact ordered.same rfl rfl fun _ => rfl

/-! ### Every run -/

/-- What is asked of a runner, after some actions. -/
structure Serves (acts : List (Act Caller D)) (s : VisionRunner Caller D) : Prop where
  /-- The detectors that get an image are what the changes so far have made of them, but those still in the queue. -/
  delivered : ∀ agent toggle, s.position agent = .delivers toggle →
    ∃ processed, made acts = processed ++ s.detectorChanges ∧ s.detectors = result processed
  /-- When the queue has been drained, the runner is in the background where there are detectors. -/
  background : Drained s → (s.updatable.backgrounded = true ↔ s.detectors ≠ ∅)
  /-- A background thread does not wait for one to end. -/
  never : ∀ t call, s.updatable.place (.runner t) ≠ .awaits call ∧ s.updatable.place (.runner t) ≠ .joins call

theorem runner_serves {acts : List (Act Caller D)} (run : runs step start acts = some s) (sound : Every step Sound start acts) : Serves acts s := by
  have begun : Ordered [] (start : VisionRunner Caller D) := ⟨[], [], rfl, rfl, nofun, nofun⟩
  obtain ⟨tidy, ordered⟩ := runs_every_acts (I := fun acts s => Tidy s ∧ Ordered (made acts) s)
    (fun acts a s u inv fine stepped => ⟨inv.1.step fine stepped, by rw [made, List.filterMap_append]; exact inv.2.step inv.1 stepped⟩)
    ⟨tidy_start, begun⟩ sound run
  refine ⟨fun agent toggle delivers => ?_, fun drained => ?_, fun t call => ?_⟩
  · obtain ⟨processed, held, order, done, _, second⟩ := ordered
    -- Nobody else has to do with the detectors.
    have none : held = [] := by
      refine List.eq_nil_iff_forall_not_mem.mpr fun change member => ?_
      obtain ⟨a, applies⟩ := second change member
      have working : inside (s.position a) = true := by
        cases h : s.position a <;> rw [h] at applies <;> first | rfl | contradiction
      rw [tidy.alone a agent working (by rw [delivers]; rfl), delivers] at applies
      contradiction
    rw [none, List.append_nil] at order
    exact ⟨processed, order, done⟩
  · have right := tidy.right (fun a => (drained.2 a).1) fun a => (drained.2 a).2
    exact right.trans (not_congr Finset.card_eq_zero)
  · rw [tidy.never t]
    exact ⟨nofun, nofun⟩

end

/-! ### One caller and one background thread -/

def me : Agent Unit := .caller ()

def thread : Agent Unit := .runner 0

/-- Where a background thread is about to change whether the runner is in the background. -/
def changes : Position ℕ → Bool
  | .backgrounds _ | .unbackgrounds _ => true
  | .toggles toggle => toggle
  | .out | .asks _ | .sizes _ | .pops _ _ | .applies _ _ _ | .compares _ _ | .waits _ | .records _ | .delivers _ | .stops => false

/-- One of the two goes on while the other has nothing to do with the detectors, and the caller makes the changes. -/
def Apart (s : VisionRunner Unit ℕ) : Act Unit ℕ → Prop
  | .proceed agent _ => agent = me ∧ s.position me ≠ .toggles true ∧ inside (s.position thread) = false ∨
    agent = thread ∧ changes (s.position thread) = false ∧ inside (s.position me) = false
  | .change _ _ _ => True
  | .loop t => t = 0

instance (s : VisionRunner Unit ℕ) (a : Act Unit ℕ) : Decidable (Apart s a) := by
  cases a <;> simp only [Apart] <;> infer_instance

/-- There is no other background thread. -/
def Single (s : VisionRunner Unit ℕ) : Prop := ∀ t, t ≠ 0 → s.position (.runner t) = .out

theorem single_moves {s u : VisionRunner Unit ℕ} (single : Single s) {agent : Agent Unit} (mine : agent = me ∨ agent = thread) {p : Position ℕ}
    (position : u.position = Function.update s.position agent p) : Single u := by
  intro t other
  rw [position]
  have ne : .runner t ≠ agent := by
    rcases mine with rfl | rfl
    · exact nofun
    · exact fun same => other (Agent.runner.inj same)
  exact (Function.update_of_ne ne _ _).trans (single t other)

theorem single_step (s : VisionRunner Unit ℕ) (a : Act Unit ℕ) (u : VisionRunner Unit ℕ) (single : Single s) (apart : Apart s a)
    (stepped : step s a = some u) : Single u := by
  cases a with
  | change c change join =>
    obtain ⟨_, same⟩ := Option.ite_none_right_eq_some.mp stepped
    obtain rfl := Option.some_inj.mp same
    exact single_moves single (.inl rfl) rfl
  | proceed agent newFrame =>
    obtain ⟨p, position⟩ := proceed_position stepped
    refine single_moves single ?_ position
    rcases apart with ⟨mine, _⟩ | ⟨mine, _⟩
    · exact .inl mine
    · exact .inr mine
  | loop t =>
    obtain rfl : t = 0 := apart
    obtain ⟨_, looped⟩ := Option.ite_none_right_eq_some.mp stepped
    obtain ⟨updatable, gone, rfl⟩ := Option.map_eq_some_iff.mp looped
    split
    · exact single_moves single (.inr rfl) rfl
    · exact single

theorem sound_apart (s : VisionRunner Unit ℕ) (a : Act Unit ℕ) (single : Single s) (apart : Apart s a) : Sound s a := by
  cases a with
  | change | loop => trivial
  | proceed agent newFrame =>
    have calm : inside (s.position agent) = false → ∀ b, inside (s.position b) = false := by
      intro mine b
      rcases b with ⟨⟩ | _ | t
      · rcases apart with ⟨rfl, _, _⟩ | ⟨_, _, outside⟩
        · exact mine
        · exact outside
      · rcases apart with ⟨_, _, outside⟩ | ⟨rfl, _, _⟩
        · exact outside
        · exact mine
      · rw [single (t + 1) (Nat.succ_ne_zero t)]
        rfl
    rw [Sound]
    cases here : s.position agent with
    | sizes => exact calm (by rw [here]; rfl)
    | toggles toggle =>
      rintro rfl
      rcases apart with ⟨rfl, other, _⟩ | ⟨rfl, calm, _⟩
      · exact absurd here other
      · rw [here] at calm
        contradiction
    | backgrounds =>
      rintro t rfl
      rcases apart with ⟨mine, _⟩ | ⟨mine, calm, _⟩
      · exact absurd mine nofun
      · rw [← mine, here] at calm
        contradiction
    | unbackgrounds =>
      rintro t rfl
      rcases apart with ⟨mine, _⟩ | ⟨mine, calm, _⟩
      · exact absurd mine nofun
      · rw [← mine, here] at calm
        contradiction
    | out | asks | pops | applies | compares | waits | records | delivers | stops => trivial

/-- A detector is added, gets an image, and is removed. -/
def addedAndRemoved : List (Act Unit ℕ) :=
  addDetector () 7 :: List.replicate 12 (.proceed me false) ++ .loop 0 :: List.replicate 9 (.proceed thread true) ++
    removeDetector () 7 true :: List.replicate 10 (.proceed me false) ++ [.loop 0, .loop 0, .loop 0, .proceed me false, .proceed me false]

/-- In the end the runner is not in the background, and there are no detectors. -/
theorem serves_added : ∃ s, runs step start addedAndRemoved = some s ∧ s.updatable.backgrounded = false ∧ s.detectors = ∅ ∧
    Serves addedAndRemoved s := by
  have apart : Every step Apart start addedAndRemoved := by decide +kernel
  have sound := every_of_every (fun s a u single apart stepped => single_step s a u single apart stepped) sound_apart (fun _ _ => rfl) apart
  have run : ∃ s, runs step start addedAndRemoved = some s ∧ s.updatable.backgrounded = false ∧ s.detectors = ∅ := ⟨_, rfl, rfl, rfl⟩
  obtain ⟨s, run, unset, none⟩ := run
  exact ⟨s, run, unset, none, runner_serves run sound⟩

/-- A detector is added, and removed while the background thread waits for the next image. -/
def removedMeanwhile : List (Act Unit ℕ) :=
  addDetector () 7 :: List.replicate 12 (.proceed me false) ++ .loop 0 :: List.replicate 3 (.proceed thread true) ++
    removeDetector () 7 false :: .proceed me false :: List.replicate 9 (.proceed thread true)

/-- The background thread waits for itself to end. -/
theorem not_serves : ¬ ∀ (acts : List (Act Unit ℕ)) (s : VisionRunner Unit ℕ), runs step start acts = some s → Serves acts s := by
  intro all
  have run : ∃ s, runs step start removedMeanwhile = some s ∧ s.updatable.place (.runner 0) = .awaits .unbackground := ⟨_, rfl, rfl⟩
  obtain ⟨s, run, waits⟩ := run
  exact ((all removedMeanwhile s run).never 0 .unbackground).1 waits

end Tortuga.DetectorSets
