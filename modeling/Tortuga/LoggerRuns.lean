import Tortuga.BackgroundThreads
import Tortuga.EventLogs
import Tortuga.EventLoggers

/-!
What a log has in it when its logger has been destroyed, and when a logger can be destroyed: no background thread may be about to look
for an event or to write one, and no publisher may be about to put one into the queue.
-/
namespace Tortuga.LoggerRuns
open Tortuga.Machines
open Tortuga.Updatables
open Tortuga.BackgroundThreads
open Tortuga.LoggedEvents
open Tortuga.EventLogs
open Tortuga.EventLoggers

/-! ### One owner of a background thread -/

section
variable {s s' : Updatable Unit} {a : Updatables.Act Unit}

/-- What holds of background threads that one thread starts and stops. -/
structure Owner (s : Updatable Unit) : Prop where
  going : ∀ t, Running s t → s.backgroundThread = some t ∧ s.threadStopped ≠ 0
  calm : s.place () = .creates ∨ s.place () = .starts → ∀ t, ¬ Running s t
  ready : s.place () = .starts → s.threadStopped ≠ 0

theorem owner_start : Owner start where
  going t running := by
    obtain ⟨l, there, _⟩ := running
    contradiction
  calm starts := by rcases starts with starts | starts <;> contradiction
  ready starts := by contradiction

theorem Owner.one (owner : Owner s) {t u : ℕ} (first : Running s t) (second : Running s u) : t = u :=
  Option.some_inj.mp ((owner.going t first).1.symm.trans (owner.going u second).1)

/-- The end of `cleanUpBackgroundThread` is the end of the background thread. -/
theorem Owner.nobody (owner : Owner s)
    (ended : s.backgroundThread = none ∨ s.threadStopped = 0 ∨ (s.backgroundThread.bind fun t => s.loops[t]?) = some .ended) (t : ℕ) :
    ¬ Running s t := by
  intro running
  obtain ⟨handle, latch⟩ := owner.going t running
  obtain ⟨l, there, going⟩ := running
  rcases ended with none | zero | joined
  · rw [handle] at none
    contradiction
  · exact latch zero
  · rw [handle, Option.bind_some, there] at joined
    exact going (Option.some_inj.mp joined)

/-- The owner goes from one place to another that starts nothing. -/
theorem Owner.moves (owner : Owner s) {u : Updatable Unit} {p : Place} (place : u.place = Function.update s.place () p)
    (other : p ≠ .creates ∧ p ≠ .starts) (loops : u.loops = s.loops) (handle : u.backgroundThread = s.backgroundThread)
    (latch : u.threadStopped = s.threadStopped) : Owner u := by
  have here : u.place () = p := by rw [place, Function.update_self]
  refine ⟨fun t running => ?_, fun starts => ?_, fun starts => absurd (here.symm.trans starts) other.2⟩
  · rw [Running, loops] at running
    rw [handle, latch]
    exact owner.going t running
  · rw [here] at starts
    rcases starts with starts | starts
    · exact absurd starts other.1
    · exact absurd starts other.2

theorem Owner.advance (owner : Owner s) (advanced : s.advance () = some s') : Owner s' := by
  cases advance_cases advanced with
  | locked call here unlocked => exact owner.moves rfl ⟨Place.noConfusion, Place.noConfusion⟩ rfl rfl rfl
  | awaits call here => exact owner.moves rfl ⟨Place.noConfusion, Place.noConfusion⟩ rfl rfl rfl
  | joins call here => exact owner.moves rfl ⟨Place.noConfusion, Place.noConfusion⟩ rfl rfl rfl
  | cleaned call handle here ended =>
    have nobody := owner.nobody ended
    have none (u : Updatable Unit) (loops : u.loops = s.loops) (t : ℕ) : ¬ Running u t := by
      rw [Running, loops]
      exact nobody t
    have gone := none _ (cleaned_loops ({ s with backgroundThread := handle }) () call)
    refine ⟨fun t running => absurd running (gone t), fun _ => gone, fun starts => ?_⟩
    cases call <;> simp [Updatable.cleaned, Updatable.put] at starts
  | resets n here unlocked positive =>
    have nobody := owner.calm (.inl here)
    exact ⟨fun t running => absurd running (nobody t), fun _ => nobody, fun _ => positive⟩
  | starts here =>
    have nobody := owner.calm (.inr here)
    refine ⟨fun t running => ?_, fun starts => ?_, fun starts => ?_⟩
    · rw [running_append (s := s) rfl nobody running]
      exact ⟨rfl, owner.ready here⟩
    · simp [Updatable.put] at starts
    · simp [Updatable.put] at starts

/-- How a background thread goes on. -/
inductive Looped (s : Updatable Unit) (t : ℕ) : Updatable Unit → Prop
  | reads (there : s.loops[t]? = some .reads) :
    Looped s t { s with loops := s.loops.set t (if s.backgrounded then .updates else .quits) }
  | updates (there : s.loops[t]? = some .updates) : Looped s t { s with loops := s.loops.set t .reads }
  | quits (there : s.loops[t]? = some .quits) : Looped s t { s with loops := s.loops.set t .ended, threadStopped := s.threadStopped - 1 }

theorem loop_cases {t : ℕ} (looped : s.loop t = some s') : Looped s t s' := by
  rw [Updatable.loop] at looped
  split at looped
  · next there =>
    obtain rfl := Option.some_inj.mp looped
    exact .reads there
  · next there =>
    obtain rfl := Option.some_inj.mp looped
    exact .updates there
  · next there =>
    obtain rfl := Option.some_inj.mp looped
    exact .quits there
  · contradiction
  · contradiction

/-- The background thread that runs goes on in its loop. -/
theorem Owner.goes (owner : Owner s) {t : ℕ} {l : Loop} (running : Running s t) : Owner { s with loops := s.loops.set t l } := by
  have fewer {i : ℕ} (now : Running { s with loops := s.loops.set t l } i) : Running s i := by
    rcases running_set (s := s) rfl now with ⟨rfl, _⟩ | ⟨_, first⟩
    · exact running
    · exact first
  exact ⟨fun i now => owner.going i (fewer now), fun starts i now => owner.calm starts i (fewer now), owner.ready⟩

theorem Owner.loop {t : ℕ} (owner : Owner s) (looped : s.loop t = some s') : Owner s' := by
  cases loop_cases looped with
  | reads there => exact owner.goes ⟨_, there, nofun⟩
  | updates there => exact owner.goes ⟨_, there, nofun⟩
  | quits there =>
    have running : Running s t := ⟨_, there, nofun⟩
    have nobody (i : ℕ) : ¬ Running { s with loops := s.loops.set t .ended, threadStopped := s.threadStopped - 1 } i := by
      intro now
      rcases running_set (s := s) rfl now with ⟨_, going⟩ | ⟨other, first⟩
      · contradiction
      · exact other (owner.one first running)
    exact ⟨fun i now => absurd now (nobody i), fun _ => nobody, fun starts => absurd running (owner.calm (.inr starts) t)⟩

theorem Owner.step (owner : Owner s) (stepped : Updatables.step s a = some s') : Owner s' := by
  cases a with
  | background thread interval =>
    obtain ⟨_, same⟩ := Option.ite_none_right_eq_some.mp stepped
    obtain rfl := Option.some_inj.mp same
    rw [Updatable.background]
    split
    · exact ⟨owner.going, owner.calm, owner.ready⟩
    · exact owner.moves rfl ⟨Place.noConfusion, Place.noConfusion⟩ rfl rfl rfl
  | unbackground thread join =>
    obtain ⟨_, same⟩ := Option.ite_none_right_eq_some.mp stepped
    obtain rfl := Option.some_inj.mp same
    rw [Updatable.unbackground]
    split
    · exact owner
    · split
      · exact owner.moves rfl ⟨Place.noConfusion, Place.noConfusion⟩ rfl rfl rfl
      · exact ⟨owner.going, owner.calm, owner.ready⟩
  | advance thread => exact owner.advance stepped
  | loop t => exact owner.loop stepped

/-- No background thread is in `update`, or will be. -/
def Idle (s : Updatable Unit) : Prop :=
  ∀ (t : ℕ) (l : Loop), s.loops[t]? = some l → l = .ended ∨ l = .quits ∨ l = .reads ∧ s.backgrounded = false

theorem idle_of_ended (ended : ∀ t, ¬ Running s t) : Idle s := fun t l there => .inl (by_contra fun going => ended t ⟨l, there, going⟩)

theorem Idle.loop {t : ℕ} (idle : Idle s) (looped : s.loop t = some s') : Idle s' := by
  have further {l : Loop} (fine : l = .ended ∨ l = .quits) {i : ℕ} {k : Loop} (there : (s.loops.set t l)[i]? = some k) :
      k = .ended ∨ k = .quits ∨ k = .reads ∧ s.backgrounded = false := by
    rw [List.getElem?_set] at there
    split_ifs at there
    · cases there
      exact fine.imp_right .inl
    · exact idle i k there
  cases loop_cases looped with
  | reads there =>
    have unset : s.backgrounded = false := by
      rcases idle t _ there with other | other | ⟨_, unset⟩
      · contradiction
      · contradiction
      · exact unset
    exact fun i k => further (.inr (by rw [unset]; rfl))
  | updates there => rcases idle t _ there with other | other | ⟨other, _⟩ <;> contradiction
  | quits there => exact fun i k => further (.inl rfl)

/-- A call starts one background thread at most. -/
theorem call_loops (stepped : Updatables.step s a = some s') (call : ∀ t, a ≠ .loop t) :
    s'.loops = s.loops ∨ s'.loops = s.loops ++ [Loop.reads] := by
  cases a with
  | background thread interval =>
    obtain ⟨_, same⟩ := Option.ite_none_right_eq_some.mp stepped
    obtain rfl := Option.some_inj.mp same
    rw [Updatable.background]
    split <;> exact .inl rfl
  | unbackground thread join =>
    obtain ⟨_, same⟩ := Option.ite_none_right_eq_some.mp stepped
    obtain rfl := Option.some_inj.mp same
    rw [Updatable.unbackground]
    split
    · exact .inl rfl
    · split <;> exact .inl rfl
  | advance thread =>
    cases advance_cases stepped with
    | locked | awaits | joins | resets => exact .inl rfl
    | cleaned call handle => exact .inl (cleaned_loops _ thread call)
    | starts => exact .inr rfl
  | loop t => exact absurd rfl (call t)

theorem call_updates {t : ℕ} (stepped : Updatables.step s a = some s') (call : ∀ t, a ≠ .loop t) (there : s.loops[t]? = some .updates) :
    s'.loops[t]? = some .updates := by
  rcases call_loops stepped call with same | more
  · rwa [same]
  · rw [more, List.getElem?_append_left (List.getElem?_eq_some_iff.mp there).1, there]

/-- The owner goes on in a stop, and may come back from it. -/
theorem stopper_moves (advanced : s.advance () = some s') (stopping : stopper (s.place ()) = true) :
    s'.loops = s.loops ∧ s'.backgrounded = s.backgrounded ∧ (s'.place () = .out ∨ stopper (s'.place ()) = true) := by
  cases advance_cases advanced with
  | locked call here =>
    rw [here] at stopping
    cases call with
    | background => contradiction
    | unbackground => exact ⟨rfl, rfl, .inr rfl⟩
  | awaits call here =>
    rw [here] at stopping
    cases call with
    | background => contradiction
    | unbackground => exact ⟨rfl, rfl, .inr rfl⟩
  | joins call here =>
    rw [here] at stopping
    cases call with
    | background => contradiction
    | unbackground => exact ⟨rfl, rfl, .inr rfl⟩
  | cleaned call handle here =>
    cases call with
    | background => rcases here with here | here <;> rw [here] at stopping <;> contradiction
    | unbackground => exact ⟨rfl, rfl, .inl rfl⟩
  | resets n here =>
    rw [here] at stopping
    contradiction
  | starts here =>
    rw [here] at stopping
    contradiction

theorem advance_within (advanced : s.advance () = some s') : s.place () ≠ .out := by
  intro out
  rw [Updatable.advance, out] at advanced
  contradiction

/-- A stop that waits comes back when no background thread runs. -/
theorem Owner.stops (owner : Owner s) (advanced : s.advance () = some s') (stopping : stopper (s.place ()) = true) :
    stopper (s'.place ()) = true ∨ ∀ t, ¬ Running s' t := by
  cases advance_cases advanced with
  | locked call here => exact .inl (by rw [here] at stopping; cases call <;> exact stopping)
  | awaits call here => exact .inl (by rw [here] at stopping; cases call <;> exact stopping)
  | joins call here => exact .inl (by rw [here] at stopping; cases call <;> exact stopping)
  | cleaned call handle here ended =>
    refine .inr fun t => ?_
    rw [Running, cleaned_loops]
    exact owner.nobody ended t
  | resets n here =>
    rw [here] at stopping
    contradiction
  | starts here =>
    rw [here] at stopping
    contradiction

end

/-! ### Steps -/

section
variable {Publisher D F P I R S : Type} [DecidableEq Publisher] [Zero D] {r : Registry P} {s s' : EventLogger Publisher D F P I R S}
  {a : EventLoggers.Act Publisher D F P I R S}

/-- What a thread has done. -/
inductive Stepped (r : Registry P) (s : EventLogger Publisher D F P I R S) :
    EventLoggers.Act Publisher D F P I R S → EventLogger Publisher D F P I R S → Prop
  | publish (publisher : Publisher) (event : AnyEvent D F P I R S) (alive : s.life = .alive) :
    Stepped r s (.publish publisher event) { s with called := Function.update s.called publisher (some event) }
  | queued (publisher : Publisher) (event : AnyEvent D F P I R S) (called : s.called publisher = some event) (there : s.life ≠ .closed) :
    Stepped r s (.queueEvent publisher) { s with
      called := Function.update s.called publisher none, eventQueue := s.eventQueue ++ [event], pushed := s.pushed ++ [event] }
  | lost (publisher : Publisher) (event : AnyEvent D F P I R S) (called : s.called publisher = some event) (closed : s.life = .closed) :
    Stepped r s (.queueEvent publisher) { s with called := Function.update s.called publisher none, misused := true }
  | background (interval : Int) (u : Updatable Unit) (alive : s.life = .alive)
    (moved : Updatables.step s.updatable (.background () interval) = some u) : Stepped r s (.background interval) { s with updatable := u }
  | unbackground (join : Bool) (u : Updatable Unit) (alive : s.life = .alive)
    (moved : Updatables.step s.updatable (.unbackground () join) = some u) : Stepped r s (.unbackground join) { s with updatable := u }
  | advance (u : Updatable Unit) (moved : s.updatable.advance () = some u) : Stepped r s .advance { s with updatable := u }
  | loop (t : ℕ) (u : Updatable Unit) (idle : s.updatable.loops[t]? = some .updates → s.event (.update t) = none)
    (moved : s.updatable.loop t = some u) : Stepped r s (.loop t) { s with updatable := u }
  | pops (t : ℕ) (event : AnyEvent D F P I R S) (rest : List (AnyEvent D F P I R S)) (there : s.updatable.loops[t]? = some .updates)
    (none : s.event (.update t) = none) (queue : s.eventQueue = event :: rest) : Stepped r s (.loop t) (s.pop (.update t) event rest)
  | misses (t : ℕ) (there : s.updatable.loops[t]? = some .updates) (closed : s.life = .closed) :
    Stepped r s (.loop t) { s with misused := true }
  | writes (writer : Writer) (memory : Memory D F R S) (event : AnyEvent D F P I R S) (taken : s.event writer = some event)
    (there : s.life ≠ .closed) : Stepped r s (.writeEvent writer memory) { s with
      event := Function.update s.event writer none, archive := (LoggedEvents.writeEvent r memory s.archive event).2 }
  | breaks (writer : Writer) (memory : Memory D F R S) (event : AnyEvent D F P I R S) (taken : s.event writer = some event)
    (closed : s.life = .closed) :
    Stepped r s (.writeEvent writer memory) { s with event := Function.update s.event writer none, misused := true }
  | destroys (alive : s.life = .alive) (out : s.updatable.place () = .out) : Stepped r s .destroy { s with life := .flushes }
  | flushes (event : AnyEvent D F P I R S) (rest : List (AnyEvent D F P I R S)) (now : s.life = .flushes)
    (none : s.event .destructor = none) (queue : s.eventQueue = event :: rest) : Stepped r s .flush (s.pop .destructor event rest)
  | closes (now : s.life = .flushes) (none : s.event .destructor = none) (queue : s.eventQueue = []) :
    Stepped r s .flush { s with life := .closed, updatable := s.updatable.put () (.cleans .unbackground) }

theorem step_cases (stepped : EventLoggers.step r s a = some s') : Stepped r s a s' := by
  cases a with
  | publish publisher event =>
    obtain ⟨alive, same⟩ := Option.ite_none_right_eq_some.mp stepped
    obtain rfl := Option.some_inj.mp same
    exact .publish publisher event alive.1
  | queueEvent publisher =>
    rw [EventLoggers.step, EventLogger.queueEvent] at stepped
    split at stepped
    · contradiction
    · next event called =>
      dsimp only at stepped
      split_ifs at stepped with closed
      · obtain rfl := Option.some_inj.mp stepped
        exact .lost publisher event called closed
      · obtain rfl := Option.some_inj.mp stepped
        exact .queued publisher event called closed
  | background interval =>
    obtain ⟨alive, same⟩ := Option.ite_none_right_eq_some.mp stepped
    obtain ⟨u, moved, rfl⟩ := Option.map_eq_some_iff.mp same
    exact .background interval u alive moved
  | unbackground join =>
    obtain ⟨alive, same⟩ := Option.ite_none_right_eq_some.mp stepped
    obtain ⟨u, moved, rfl⟩ := Option.map_eq_some_iff.mp same
    exact .unbackground join u alive moved
  | advance =>
    obtain ⟨u, moved, rfl⟩ := Option.map_eq_some_iff.mp stepped
    exact .advance u moved
  | loop t =>
    rw [EventLoggers.step, EventLogger.loop] at stepped
    split_ifs at stepped with there
    · split at stepped
      · contradiction
      · next closed =>
        obtain rfl := Option.some_inj.mp stepped
        exact .misses t there closed
      · next none _ _ =>
        obtain ⟨u, moved, rfl⟩ := Option.map_eq_some_iff.mp stepped
        exact .loop t u (fun _ => none) moved
      · next event rest none queue _ =>
        obtain rfl := Option.some_inj.mp stepped
        exact .pops t event rest there none queue
    · obtain ⟨u, moved, rfl⟩ := Option.map_eq_some_iff.mp stepped
      exact .loop t u (fun other => absurd other there) moved
  | writeEvent writer memory =>
    rw [EventLoggers.step, EventLogger.writeEvent] at stepped
    split at stepped
    · contradiction
    · next event taken =>
      dsimp only at stepped
      split_ifs at stepped with closed
      · obtain rfl := Option.some_inj.mp stepped
        exact .breaks writer memory event taken closed
      · obtain rfl := Option.some_inj.mp stepped
        exact .writes writer memory event taken closed
  | destroy =>
    obtain ⟨alive, same⟩ := Option.ite_none_right_eq_some.mp stepped
    obtain rfl := Option.some_inj.mp same
    exact .destroys alive.1 alive.2
  | flush =>
    rw [EventLoggers.step, EventLogger.flush] at stepped
    split at stepped
    · next now none queue =>
      obtain rfl := Option.some_inj.mp stepped
      exact .closes now none queue
    · next event rest now none queue =>
      obtain rfl := Option.some_inj.mp stepped
      exact .flushes event rest now none queue
    · contradiction

/-! ### The log -/

/-- The class of an event can be converted. -/
def convertible : AnyEvent D F P I R S → Bool
  | .buoy _ | .hedge _ => false
  | _ => true

/-- Events have been written one after the other. -/
inductive Archived (r : Registry P) : List (AnyEvent D F P I R S) → List (Datum D F) → Prop
  | nil : Archived r [] []
  | snoc {events : List (AnyEvent D F P I R S)} {log : List (Datum D F)} (archived : Archived r events log) (memory : Memory D F R S)
    (event : AnyEvent D F P I R S) : Archived r (events ++ [event]) (LoggedEvents.writeEvent r memory log event).2

omit [DecidableEq Publisher] in
theorem exported_eq (memory : Memory D F R S) (event : AnyEvent D F P I R S) :
    ((event.clone memory).save r).1.exported = convertible event := by cases event <;> rfl

theorem zipWith_snoc {A B C : Type} (f : A → B → C) (xs : List A) (ys : List B) (x : A) (y : B) (more : List A)
    (place : xs.drop ys.length = x :: more) :
    List.zipWith f xs (ys ++ [y]) = List.zipWith f xs ys ++ [f x y] := by
  induction ys generalizing xs with
  | nil =>
    obtain rfl : xs = x :: more := place
    rw [List.nil_append, List.zipWith_cons_cons, List.zipWith_nil_right, List.zipWith_nil_right, List.nil_append]
  | cons z ys ih =>
    cases xs with
    | nil => contradiction
    | cons w xs => exact congrArg (f w z :: ·) (ih xs place)

omit [DecidableEq Publisher] in
/-- What has been written is read again, whatever follows. -/
theorem readEvents_archived {events : List (AnyEvent D F P I R S)} {log : List (Datum D F)} (archived : Archived r events log)
    (memories : List (Memory D F R S)) (enough : (events.filter convertible).length ≤ memories.length) (rest : List (Datum D F)) :
    readEvents r memories (log ++ rest) = (readEvents r (memories.drop (events.filter convertible).length) rest).map
      (List.zipWith (loaded r) memories (events.filter convertible) ++ · : List (AnyEvent D F P I R S) → List (AnyEvent D F P I R S)) := by
  induction archived generalizing rest with
  | nil => simp
  | snoc archived memory event ih =>
    rename_i events log
    rw [List.filter_append] at enough ⊢
    rw [LoggedEvents.writeEvent, exported_eq]
    cases converts : convertible event with
    | false =>
      simp only [converts, List.filter_cons, List.filter_nil, List.append_nil, if_false, Bool.false_eq_true] at enough ⊢
      exact ih enough rest
    | true =>
      simp only [converts, List.filter_cons, List.filter_nil, if_true, List.length_append, List.length_singleton] at enough ⊢
      obtain ⟨found, more, place⟩ : ∃ found more, memories.drop (events.filter convertible).length = found :: more :=
        List.exists_cons_of_ne_nil (by rw [ne_eq, List.drop_eq_nil_iff]; omega)
      have further : memories.drop ((events.filter convertible).length + 1) = more := by
        rw [← List.drop_drop, place]
        rfl
      rw [List.append_assoc, List.cons_append, ih (by omega), place, further, readEvents, readEvent, load_save,
        zipWith_snoc _ _ _ found event more place]
      rw [Option.bind_some, Option.map_map]
      congr 1
      funext later
      simp only [Function.comp_apply, List.append_assoc, List.cons_append, List.nil_append]

/-! ### Invariants -/

/-- What holds whatever is done. -/
structure Sound (s : EventLogger Publisher D F P I R S) : Prop where
  owner : Owner s.updatable
  inside : ∀ t event, s.event (.update t) = some event → s.updatable.loops[t]? = some .updates
  ending : ∀ event, s.event .destructor = some event → s.life ≠ .alive

omit [DecidableEq Publisher] [Zero D] in
theorem sound_start : Sound (start : EventLogger Publisher D F P I R S) := ⟨owner_start, nofun, nofun⟩

omit [DecidableEq Publisher] [Zero D] in
/-- A call of the owner, of which a background thread in `update` sees nothing. -/
theorem Sound.call (sound : Sound s) {b : Updatables.Act Unit} {u : Updatable Unit} (moved : Updatables.step s.updatable b = some u)
    (call : ∀ t, b ≠ .loop t) : Sound { s with updatable := u } :=
  ⟨sound.owner.step moved, fun t event taken => call_updates moved call (sound.inside t event taken), sound.ending⟩

theorem Sound.step (sound : Sound s) (stepped : EventLoggers.step r s a = some s') : Sound s' := by
  have fewer {writer other : Writer} {event : AnyEvent D F P I R S}
      (taken : Function.update s.event writer none other = some event) : s.event other = some event := by
    rw [Function.update_apply] at taken
    split_ifs at taken
    exact taken
  cases step_cases stepped with
  | publish | queued | lost | misses => exact ⟨sound.owner, sound.inside, sound.ending⟩
  | background interval u alive moved => exact sound.call moved nofun
  | unbackground join u alive moved => exact sound.call moved nofun
  | advance u moved => exact sound.call (b := .advance ()) moved nofun
  | loop t u idle moved =>
    refine ⟨sound.owner.loop moved, fun i event taken => ?_, sound.ending⟩
    have there := sound.inside i event taken
    have other : t ≠ i := by
      rintro rfl
      exact absurd ((idle there).symm.trans taken) nofun
    cases loop_cases moved with
    | reads | updates | quits => exact (List.getElem?_set_ne other).trans there
  | pops t event rest there none queue =>
    refine ⟨sound.owner, fun i other taken => ?_, fun other taken => ?_⟩
    · change Function.update s.event (.update t) (some event) (.update i) = _ at taken
      rw [Function.update_apply] at taken
      split_ifs at taken with same
      · cases same
        exact there
      · exact sound.inside i other taken
    · change Function.update s.event (.update t) (some event) .destructor = _ at taken
      rw [Function.update_of_ne (by exact nofun)] at taken
      exact sound.ending other taken
  | writes writer memory event taken there =>
    exact ⟨sound.owner, fun i other still => sound.inside i other (fewer still), fun other still => sound.ending other (fewer still)⟩
  | breaks writer memory event taken closed =>
    exact ⟨sound.owner, fun i other still => sound.inside i other (fewer still), fun other still => sound.ending other (fewer still)⟩
  | destroys alive out => exact ⟨sound.owner, sound.inside, fun _ _ => nofun⟩
  | flushes event rest now none queue =>
    refine ⟨sound.owner, fun i other taken => ?_, fun _ _ => ?_⟩
    · change Function.update s.event .destructor (some event) (.update i) = _ at taken
      rw [Function.update_of_ne (by exact nofun)] at taken
      exact sound.inside i other taken
    · change s.life ≠ .alive
      rw [now]
      exact nofun
  | closes now none queue => exact ⟨sound.owner.moves rfl ⟨Place.noConfusion, Place.noConfusion⟩ rfl rfl rfl, sound.inside, fun _ _ => nofun⟩

/-- The life of a logger does not begin again. -/
theorem life_stays (ended : s.life ≠ .alive) (stepped : EventLoggers.step r s a = some s') : s'.life ≠ .alive := by
  cases step_cases stepped with
  | publish | queued | lost | background | unbackground | advance | loop | pops | misses | writes | breaks | flushes => exact ended
  | destroys alive => exact absurd alive ended
  | closes => exact nofun

/-- Nobody but the destructor will use the queue or the archive. -/
structure Alone (s : EventLogger Publisher D F P I R S) : Prop where
  idle : Idle s.updatable
  uncalled : ∀ p, s.called p = none
  place : s.updatable.place () = .out ∨ stopper (s.updatable.place ()) = true

theorem Alone.step (alone : Alone s) (ended : s.life ≠ .alive) (stepped : EventLoggers.step r s a = some s') : Alone s' := by
  cases step_cases stepped with
  | publish publisher event alive => exact absurd alive ended
  | queued publisher event called =>
    rw [alone.uncalled] at called
    contradiction
  | lost publisher event called =>
    rw [alone.uncalled] at called
    contradiction
  | background interval u alive => exact absurd alive ended
  | unbackground join u alive => exact absurd alive ended
  | advance u moved =>
    have stopping := alone.place.resolve_left (advance_within moved)
    obtain ⟨loops, set, place⟩ := stopper_moves moved stopping
    refine ⟨fun t l there => ?_, alone.uncalled, place⟩
    change u.loops[t]? = _ at there
    rw [loops] at there
    change _ ∨ _ ∨ _ ∧ u.backgrounded = _
    rw [set]
    exact alone.idle t l there
  | loop t u idle moved =>
    obtain ⟨place, -⟩ := loop_frame moved
    refine ⟨alone.idle.loop moved, alone.uncalled, ?_⟩
    change u.place () = _ ∨ stopper (u.place ()) = _
    rw [place]
    exact alone.place
  | pops | misses | writes | breaks | flushes => exact ⟨alone.idle, alone.uncalled, alone.place⟩
  | destroys alive => exact absurd alive ended
  | closes => exact ⟨alone.idle, alone.uncalled, .inr (by simp [Updatable.put, stopper])⟩

omit [DecidableEq Publisher] [Zero D] in
theorem Alone.untaken (alone : Alone s) (sound : Sound s) (t : ℕ) : s.event (.update t) = none := by
  by_contra taken
  obtain ⟨event, taken⟩ := Option.ne_none_iff_exists'.mp taken
  rcases alone.idle t _ (sound.inside t event taken) with other | other | ⟨other, _⟩ <;> contradiction

omit [DecidableEq Publisher] [Zero D] in
theorem Alone.nobody (alone : Alone s) (sound : Sound s) (none : s.event .destructor = none) (writer : Writer) : s.event writer = .none := by
  cases writer with
  | update t => exact alone.untaken sound t
  | destructor => exact none

/-- What is asked of the one who destroys a logger. -/
def Careful (s : EventLogger Publisher D F P I R S) : EventLoggers.Act Publisher D F P I R S → Prop
  | .destroy => s.life = .alive → Idle s.updatable ∧ ∀ p, s.called p = none
  | _ => True

/-- One writer at most has an event. -/
def Held {E : Type} (event : Writer → Option E) (held : List E) : Prop :=
  ∃ writer, (∀ other, other ≠ writer → event other = none) ∧ held = (event writer).toList

/-- What holds while loggers are destroyed with care. -/
structure Logged (r : Registry P) (s : EventLogger Publisher D F P I R S) : Prop where
  sound : Sound s
  alone : s.life ≠ .alive → Alone s
  fine : s.misused = false
  closed : s.life = .closed → s.eventQueue = [] ∧ ∀ writer, s.event writer = none
  parts : ∃ written held, s.pushed = written ++ (held ++ s.eventQueue) ∧ Archived r written s.archive ∧ Held s.event held

omit [DecidableEq Publisher] in
theorem logged_start : Logged r (start : EventLogger Publisher D F P I R S) where
  sound := sound_start
  alone ended := absurd rfl ended
  fine := rfl
  closed := nofun
  parts := ⟨[], [], rfl, .nil, .destructor, fun _ _ => rfl, rfl⟩

/-- An event is taken off the queue when nobody has one. -/
theorem held_pop {E : Type} {event : Writer → Option E} {held : List E} (parts : Held event held) {writer : Writer}
    (others : ∀ other, event other = none) (e : E) : held = [] ∧ Held (Function.update event writer (some e)) [e] := by
  obtain ⟨last, -, rfl⟩ := parts
  refine ⟨by rw [others]; rfl, writer, fun other different => ?_, by rw [Function.update_self]; rfl⟩
  rw [Function.update_of_ne different, others]

/-- The event that has been taken is written. -/
theorem held_write {E : Type} {event : Writer → Option E} {held : List E} (parts : Held event held) {writer : Writer} {e : E}
    (taken : event writer = some e) : held = [e] ∧ ∀ other, Function.update event writer none other = none := by
  obtain ⟨last, others, rfl⟩ := parts
  obtain rfl : writer = last := by
    by_contra different
    rw [others writer different] at taken
    contradiction
  refine ⟨by rw [taken]; rfl, fun other => ?_⟩
  rw [Function.update_apply]
  split_ifs with same
  · rfl
  · exact others other same

theorem Logged.step (logged : Logged r s) (careful : Careful s a) (stepped : EventLoggers.step r s a = some s') : Logged r s' := by
  have sound := logged.sound.step stepped
  have alone : s'.life ≠ .alive → Alone s' := by
    intro ended
    by_cases before : s.life = .alive
    · cases step_cases stepped with
      | destroys alive out => exact ⟨(careful alive).1, (careful alive).2, .inl out⟩
      | publish | queued | lost | background | unbackground | advance | loop | pops | misses | writes | breaks | flushes =>
        exact absurd before ended
      | closes now =>
        rw [before] at now
        contradiction
    · exact (logged.alone before).step before stepped
  -- once the logger has been closed nothing is used that is gone
  have gone (closed : s.life = .closed) : Alone s := logged.alone (by rw [closed]; exact nofun)
  obtain ⟨written, held, parts, archived, one⟩ := logged.parts
  cases step_cases stepped with
  | publish | background | unbackground | advance | loop =>
    exact ⟨sound, alone, logged.fine, logged.closed, written, held, parts, archived, one⟩
  | destroys => exact ⟨sound, alone, logged.fine, nofun, written, held, parts, archived, one⟩
  | queued publisher event called there =>
    refine ⟨sound, alone, logged.fine, fun closed => absurd closed there, written, held, ?_, archived, one⟩
    change s.pushed ++ [event] = _
    rw [parts, List.append_assoc, List.append_assoc]
  | lost publisher event called closed =>
    rw [(gone closed).uncalled] at called
    contradiction
  | pops t event rest there none queue =>
    have alive : s.life = .alive := by
      by_contra ended
      rcases (logged.alone ended).idle t _ there with other | other | ⟨other, _⟩ <;> contradiction
    have others (other : Writer) : s.event other = Option.none := by
      by_contra taken
      obtain ⟨e, taken⟩ := Option.ne_none_iff_exists'.mp taken
      cases other with
      | update i =>
        -- one background thread runs at most
        have same := logged.sound.owner.one ⟨_, logged.sound.inside i e taken, nofun⟩ ⟨_, there, nofun⟩
        rw [same, none] at taken
        contradiction
      | destructor => exact logged.sound.ending e taken alive
    obtain ⟨rfl, one⟩ := held_pop one others event
    refine ⟨sound, alone, logged.fine, fun closed => ?_, written, [event], ?_, archived, one⟩
    · exact absurd (alive.symm.trans closed) nofun
    · exact parts.trans (by rw [queue]; rfl)
  | misses t there closed =>
    rcases (gone closed).idle t _ there with other | other | ⟨other, _⟩ <;> contradiction
  | writes writer memory event taken there =>
    obtain ⟨rfl, nobody⟩ := held_write one taken
    refine ⟨sound, alone, logged.fine, fun closed => absurd closed there, written ++ [event], [], ?_, archived.snoc memory event,
      writer, fun other _ => nobody other, ?_⟩
    · exact parts.trans (List.append_assoc _ _ _).symm
    · exact (congrArg Option.toList (nobody writer)).symm
  | breaks writer memory event taken closed =>
    rw [(logged.closed closed).2] at taken
    contradiction
  | flushes event rest now none queue =>
    have ended : s.life ≠ .alive := by rw [now]; exact nofun
    obtain ⟨rfl, one⟩ := held_pop one ((logged.alone ended).nobody logged.sound none) event
    refine ⟨sound, alone, logged.fine, fun closed => ?_, written, [event], ?_, archived, one⟩
    · exact absurd (now.symm.trans closed) nofun
    · exact parts.trans (by rw [queue]; rfl)
  | closes now none queue =>
    have ended : s.life ≠ .alive := by rw [now]; exact nofun
    exact ⟨sound, alone, logged.fine, fun _ => ⟨queue, (logged.alone ended).nobody logged.sound none⟩, written, held, parts, archived, one⟩

/-- A run in which the logger is destroyed with care, whatever follows. -/
theorem careful_run (front : List (EventLoggers.Act Publisher D F P I R S)) (run : runs (EventLoggers.step r) EventLoggers.start front = some s)
    (alive : s.life = .alive) (careful : Idle s.updatable ∧ ∀ p, s.called p = none) (back : List (EventLoggers.Act Publisher D F P I R S)) :
    Every (EventLoggers.step r) Careful EventLoggers.start (front ++ .destroy :: back) := by
  refine every_append ?_ fun t same => ?_
  · -- a run that has come so far has not destroyed anything
    refine every_of_runs (I := fun _ => True) (H := fun s => s.life ≠ .alive) (fun _ _ _ _ _ _ => trivial)
      (fun _ _ _ ended stepped => life_stays ended stepped) (fun u a v _ stepped careless => ?_) trivial run (not_not.mpr alive)
    cases step_cases stepped with
    | destroys => exact nofun
    | publish | queued | lost | background | unbackground | advance | loop | pops | misses | writes | breaks | flushes | closes =>
      exact absurd trivial careless
  · obtain rfl := Option.some_inj.mp (run.symm.trans same)
    refine ⟨fun _ => careful, fun u stepped => ?_⟩
    have ended : u.life ≠ .alive := by
      obtain ⟨-, same⟩ := Option.ite_none_right_eq_some.mp stepped
      obtain rfl := Option.some_inj.mp same
      exact nofun
    refine every_of_every (P := fun _ _ => True) (I := fun s => s.life ≠ .alive) (fun _ _ _ ended _ stepped => life_stays ended stepped)
      (fun t a ended _ => ?_) ended (every_of_all fun _ _ _ => trivial)
    cases a with
    | destroy => exact fun alive => absurd alive ended
    | publish | queueEvent | background | unbackground | advance | loop | writeEvent | flush => trivial

theorem logged_run (acts : List (EventLoggers.Act Publisher D F P I R S)) (run : runs (EventLoggers.step r) EventLoggers.start acts = some s)
    (careful : Every (EventLoggers.step r) Careful EventLoggers.start acts) : Logged r s :=
  runs_every (fun _ _ _ logged careful stepped => logged.step careful stepped) logged_start careful run

/-- For every order of the steps of the publishers, the background threads and the owner: if no background thread is in `update`, or will be,
    and no publisher is in `queueEvent` when the logger is destroyed, nothing is used that is gone, and at any time the log gives back, in
    their order and each once, the first of the events that have been queued: those of classes that can be converted, as they are loaded.
    When the logger has been closed these are all that have been queued. -/
theorem log_runs (r : Registry P) (acts : List (EventLoggers.Act Publisher D F P I R S))
    (run : runs (EventLoggers.step r) EventLoggers.start acts = some s) (careful : Every (EventLoggers.step r) Careful EventLoggers.start acts) :
    s.misused = false ∧ ∃ written, written <+: s.pushed ∧ (s.life = .closed → written = s.pushed) ∧
      ∀ memories, (written.filter convertible).length ≤ memories.length →
        readEvents r memories s.archive = some (List.zipWith (loaded r) memories (written.filter convertible)) := by
  have logged := logged_run acts run careful
  obtain ⟨written, held, parts, archived, writer, -, same⟩ := logged.parts
  refine ⟨logged.fine, written, ⟨_, parts.symm⟩, fun closed => ?_, fun memories enough => ?_⟩
  · obtain ⟨queue, nobody⟩ := logged.closed closed
    rw [parts, same, queue, nobody, Option.toList_none, List.append_nil, List.append_nil]
  · have read := readEvents_archived archived memories enough []
    rw [List.append_nil, readEvents, Option.map_some, List.append_nil] at read
    exact read

/-! ### Destruction -/

/-- The destructor can come to the end of the queue, with the other threads where they were. -/
theorem flush_queue (memory : Memory D F R S) (now : s.life = .flushes) (none : s.event .destructor = none) :
    ∃ more t, runs (EventLoggers.step r) s more = some t ∧ t.life = .closed ∧ t.updatable.loops = s.updatable.loops ∧
      t.updatable.backgrounded = s.updatable.backgrounded ∧ t.called = s.called := by
  obtain ⟨events, queue⟩ : ∃ events, s.eventQueue = events := ⟨_, rfl⟩
  induction events generalizing s with
  | nil =>
    refine ⟨[.flush], { s with life := .closed, updatable := s.updatable.put () (.cleans .unbackground) }, ?_, rfl, rfl, rfl, rfl⟩
    rw [runs_cons, EventLoggers.step, EventLogger.flush, now, none, queue]
    rfl
  | cons event rest ih =>
    let popped := s.pop .destructor event rest
    let written : EventLogger Publisher D F P I R S := { popped with
      event := Function.update popped.event .destructor Option.none, archive := (LoggedEvents.writeEvent r memory s.archive event).2 }
    obtain ⟨more, t, run, closed, loops, set, called⟩ := ih (s := written) now (by simp [written]) rfl
    refine ⟨.flush :: .writeEvent .destructor memory :: more, t, ?_, closed, loops, set, called⟩
    have pops : EventLoggers.step r s .flush = some popped := by
      rw [EventLoggers.step, EventLogger.flush, now, none, queue]
    have taken : popped.event .destructor = some event := by simp [popped, EventLogger.pop]
    have there : popped.life ≠ .closed := fun closed => absurd (now.symm.trans closed) nofun
    have writes : EventLoggers.step r popped (.writeEvent .destructor memory) = some written := by
      rw [EventLoggers.step, EventLogger.writeEvent, taken]
      exact if_neg there
    rw [runs_cons, pops, Option.bind_some, runs_cons, writes, Option.bind_some, run]

/-- The owner is in a stop, or has come back from it and no background thread runs. -/
structure Stops (s : EventLogger Publisher D F P I R S) : Prop where
  owner : Owner s.updatable
  stopped : stopper (s.updatable.place ()) = true ∨ s.updatable.place () = .out ∧ ∀ t, ¬ Running s.updatable t

theorem Stops.step (stops : Stops s) (stepped : EventLoggers.step r s a = some s')
    (other : ∀ interval, a ≠ .background interval) : Stops s' := by
  cases step_cases stepped with
  | publish | queued | lost | pops | misses | writes | breaks | destroys | flushes => exact ⟨stops.owner, stops.stopped⟩
  | background interval => exact absurd rfl (other interval)
  | unbackground join u alive moved =>
    refine ⟨stops.owner.step moved, ?_⟩
    obtain ⟨out, same⟩ := Option.ite_none_right_eq_some.mp moved
    obtain rfl := Option.some_inj.mp same
    have ended : ∀ t, ¬ Running s.updatable t := by
      rcases stops.stopped with stopping | ⟨_, ended⟩
      · rw [out] at stopping
        contradiction
      · exact ended
    change stopper ((s.updatable.unbackground () join).place ()) = true ∨
      (s.updatable.unbackground () join).place () = .out ∧ ∀ t, ¬ Running (s.updatable.unbackground () join) t
    rw [Updatable.unbackground]
    split_ifs
    · exact .inr ⟨out, ended⟩
    · exact .inl (by simp [Updatable.put, stopper])
    · exact .inr ⟨out, ended⟩
  | advance u moved =>
    refine ⟨stops.owner.advance moved, ?_⟩
    have stopping := stops.stopped.resolve_right fun both => advance_within moved both.1
    obtain ⟨-, -, out | still⟩ := stopper_moves moved stopping
    · rcases stops.owner.stops moved stopping with still | ended
      · exact .inl still
      · exact .inr ⟨out, ended⟩
    · exact .inl still
  | loop t u idle moved =>
    refine ⟨stops.owner.loop moved, ?_⟩
    obtain ⟨place, -⟩ := loop_frame moved
    rcases stops.stopped with stopping | ⟨_, ended⟩
    · exact .inl (by change stopper (u.place ()) = true; rwa [place])
    · cases loop_cases moved with
      | reads there | updates there | quits there => exact absurd ⟨_, there, Loop.noConfusion⟩ (ended t)
  | closes => exact ⟨stops.owner.moves rfl ⟨Place.noConfusion, Place.noConfusion⟩ rfl rfl rfl, .inl (by simp [Updatable.put, stopper])⟩

theorem stopped_idle (front middle : List (EventLoggers.Act Publisher D F P I R S))
    (run : runs (EventLoggers.step r) EventLoggers.start (front ++ (.unbackground true :: middle)) = some s) (out : s.updatable.place () = .out)
    (started : ∀ interval, .background interval ∉ middle) : Idle s.updatable := by
  obtain ⟨u, front, back⟩ := runs_front run
  obtain ⟨v, called, later⟩ := Option.bind_eq_some_iff.mp back
  have owned : Sound u := runs_invariant (I := fun _ => Sound) sound_start (fun _ _ _ _ _ sound stepped => sound.step stepped) front
  have first : Stops v := by
    refine ⟨(owned.step called).owner, .inl ?_⟩
    obtain ⟨alive, same⟩ := Option.ite_none_right_eq_some.mp called
    obtain ⟨w, moved, rfl⟩ := Option.map_eq_some_iff.mp same
    obtain ⟨-, same⟩ := Option.ite_none_right_eq_some.mp moved
    obtain rfl := Option.some_inj.mp same
    simp [Updatable.unbackground, Updatable.put, stopper]
  have last : Stops s := by
    refine runs_every (P := fun _ a => ∀ interval, a ≠ .background interval)
      (fun _ _ _ stops other stepped => stops.step stepped other) first (every_of_all fun a among _ interval same => ?_) later
    exact started interval (same ▸ among)
  rcases last.stopped with stopping | ⟨_, ended⟩
  · rw [out] at stopping
    contradiction
  · exact idle_of_ended ended

/-- What a background thread in `update` uses is gone. -/
theorem update_misuses (memory : Memory D F R S) (closed : s.life = .closed) {i : ℕ} (there : s.updatable.loops[i]? = some .updates) :
    ∃ a t, EventLoggers.step r s a = some t ∧ t.misused = true := by
  cases taken : s.event (.update i) with
  | none =>
    refine ⟨.loop i, { s with misused := true }, ?_, rfl⟩
    rw [EventLoggers.step, EventLogger.loop, if_pos there, taken, closed]
  | some event =>
    refine ⟨.writeEvent (.update i) memory, { s with event := Function.update s.event (.update i) none, misused := true }, ?_, rfl⟩
    rw [EventLoggers.step, EventLogger.writeEvent, taken]
    exact if_pos closed

/-- A logger can be destroyed with nothing being used afterwards, whatever the threads do, exactly when no background thread is in `update`, or
    will be, and no publisher is in `queueEvent`. No background thread is, or will be, when `unbackground(true)` has come back and none has
    been started since. -/
theorem destruction_safe (r : Registry P) (memory : Memory D F R S) (acts : List (EventLoggers.Act Publisher D F P I R S))
    (run : runs (EventLoggers.step r) EventLoggers.start acts = some s) (alive : s.life = .alive) (out : s.updatable.place () = .out) :
    ((∀ back t, runs (EventLoggers.step r) s (.destroy :: back) = some t → t.misused = false) ↔
        Idle s.updatable ∧ ∀ p, s.called p = none) ∧
      ∀ front middle, acts = front ++ (.unbackground true :: middle) → (∀ interval, .background interval ∉ middle) → Idle s.updatable := by
  have destroyed : EventLoggers.step r s .destroy = some { s with life := .flushes } := if_pos ⟨alive, out⟩
  have sound : Sound s := runs_invariant (I := fun _ => Sound) sound_start (fun _ _ _ _ _ sound stepped => sound.step stepped) run
  refine ⟨⟨fun safe => ?_, fun careful back t after => ?_⟩, fun front middle parts started => ?_⟩
  · -- the destructor can be ahead of everybody else
    have quiet : s.event .destructor = none := by
      by_contra taken
      obtain ⟨event, taken⟩ := Option.ne_none_iff_exists'.mp taken
      exact sound.ending event taken alive
    obtain ⟨more, t, flushed, closed, loops, set, called⟩ := flush_queue (r := r) (s := { s with life := .flushes }) memory rfl quiet
    have spared (back : List (EventLoggers.Act Publisher D F P I R S)) (u : EventLogger Publisher D F P I R S)
        (later : runs (EventLoggers.step r) t back = some u) : u.misused = false := by
      refine safe (more ++ back) u ?_
      rw [runs_cons, destroyed, Option.bind_some, runs_append, flushed, Option.bind_some, later]
    have harmless {a : EventLoggers.Act Publisher D F P I R S} {u : EventLogger Publisher D F P I R S}
        (stepped : EventLoggers.step r t a = some u) : u.misused ≠ true := by
      rw [spared [a] u (by rw [runs_cons, stepped]; rfl)]
      exact Bool.false_ne_true
    refine ⟨fun i l there => ?_, fun p => ?_⟩
    · change s.updatable.loops[i]? = some l at there
      rw [← loops] at there
      cases l with
      | ended => exact .inl rfl
      | quits => exact .inr (.inl rfl)
      | updates =>
        obtain ⟨a, u, stepped, misused⟩ := update_misuses (r := r) memory closed there
        exact absurd misused (harmless stepped)
      | reads =>
        refine .inr (.inr ⟨rfl, ?_⟩)
        by_contra kept
        have goes : t.updatable.backgrounded = true := by rw [set]; simpa using kept
        let updatable := { t.updatable with loops := t.updatable.loops.set i (if t.updatable.backgrounded then .updates else .quits) }
        have looped : EventLoggers.step r t (.loop i) = some { t with updatable := updatable } := by
          rw [EventLoggers.step, EventLogger.loop, if_neg (by rw [there]; decide), Updatable.loop, there]
          rfl
        have now : updatable.loops[i]? = some .updates := by
          dsimp only [updatable]
          rw [goes]
          exact List.getElem?_set_self (List.getElem?_eq_some_iff.mp there).1
        obtain ⟨a, u, stepped, misused⟩ := update_misuses (r := r) (s := { t with updatable := updatable }) memory closed now
        have fine := spared [.loop i, a] u (by rw [runs_cons, looped, Option.bind_some, runs_cons, stepped]; rfl)
        rw [misused] at fine
        contradiction
    · by_contra calls
      obtain ⟨event, calls⟩ := Option.ne_none_iff_exists'.mp calls
      have lost : EventLoggers.step r t (.queueEvent p) = some { t with called := Function.update t.called p none, misused := true } := by
        have calls : t.called p = some event := called ▸ calls
        rw [EventLoggers.step, EventLogger.queueEvent, calls]
        exact if_pos closed
      exact harmless lost rfl
  · refine (logged_run (acts ++ .destroy :: back) ?_ (careful_run acts run alive careful back)).fine
    rw [runs_append, run]
    exact after
  · rw [parts] at run
    exact stopped_idle front middle run out started

end

/-! ### An example -/

/-- An event is written by the background thread, which is stopped, and two are left, one of a class that cannot be converted. -/
def stopped : List (EventLoggers.Act Unit ℤ ℤ Unit Unit Unit Unit) :=
  [.background 100, .advance, .advance, .advance, .advance, .publish () (.bin ⟨⟨⟨"BIN_FOUND", some (), 7⟩, 1, 2, 0, 3⟩, .spade, 45⟩),
    .queueEvent (), .loop 0, .loop 0, .writeEvent (.update 0) zeroed, .loop 0,
    .publish () (.safe ⟨⟨"SAFE_FOUND", some (), 8⟩, 1, 2⟩), .queueEvent (),
    .publish () (.buoy ⟨⟨⟨"BUOY_FOUND", some (), 9⟩, 1, 2, 0, 3⟩, 4, 5, .red, true⟩), .queueEvent ()] ++
  (.unbackground true :: [.loop 0, .advance, .advance, .loop 0, .advance, .advance])

/-- The destructor writes what is left. -/
def flushed : List (EventLoggers.Act Unit ℤ ℤ Unit Unit Unit Unit) :=
  [.flush, .writeEvent .destructor zeroed, .flush, .writeEvent .destructor zeroed, .flush]

theorem log_stopped : ∃ s, runs (EventLoggers.step named) EventLoggers.start (stopped ++ .destroy :: flushed) = some s ∧ s.life = .closed ∧
    s.misused = false ∧ ∃ written, written <+: s.pushed ∧ (s.life = .closed → written = s.pushed) ∧
      ∀ memories, (written.filter convertible).length ≤ memories.length →
        readEvents named memories s.archive = some (List.zipWith (loaded named) memories (written.filter convertible)) := by
  refine ⟨_, rfl, rfl, log_runs named (stopped ++ .destroy :: flushed) rfl (careful_run stopped rfl rfl ⟨?_, fun _ => rfl⟩ flushed)⟩
  exact stopped_idle (r := named) (stopped.take 15) (stopped.drop 16) rfl rfl (by simp [stopped])

theorem destruction_stopped : ∃ s, runs (EventLoggers.step named) EventLoggers.start stopped = some s ∧
    ((∀ back t, runs (EventLoggers.step named) s (.destroy :: back) = some t → t.misused = false) ↔
      Idle s.updatable ∧ ∀ p, s.called p = none) :=
  ⟨_, rfl, (destruction_safe named zeroed stopped rfl rfl rfl).1⟩

end Tortuga.LoggerRuns
