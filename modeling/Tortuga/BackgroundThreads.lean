import Tortuga.Updatables

/-!
The life of the background threads of an `Updatable` (`Updatable.cpp`): one of them runs at a time, a
call that waits for it comes back, and nothing keeps it going meanwhile, when it is only started again
after it has ended.
-/
namespace Tortuga.BackgroundThreads
open Tortuga.Machines
open Tortuga.Updatables
set_option linter.unusedSimpArgs false

section
variable {Thread : Type} [DecidableEq Thread] {s s' : Updatable Thread} {a : Act Thread} {acts : List (Act Thread)}
  {thread : Thread} {call : Call} {t : ℕ}

/-- A background thread has not come to the end of `loop`. -/
def Running (s : Updatable Thread) (t : ℕ) : Prop := ∃ l, s.loops[t]? = some l ∧ l ≠ .ended

/-- Where a thread is holding `m_threadStateMutex`. -/
def holds : Place → Bool
  | .checks _ | .awaits _ | .joins _ | .starts => true
  | .out | .cleans _ | .creates => false

/-- Where a thread is about to start a background thread. -/
def starter : Place → Bool
  | .cleans .background | .checks .background | .awaits .background | .joins .background | .creates | .starts => true
  | .out | .cleans .unbackground | .checks .unbackground | .awaits .unbackground | .joins .unbackground => false

/-- Where a thread is in `unbackground`. -/
def stopper : Place → Bool
  | .cleans .unbackground | .checks .unbackground | .awaits .unbackground | .joins .unbackground => true
  | .cleans .background | .checks .background | .awaits .background | .joins .background | .out | .creates | .starts => false

/-- No background thread is running or about to be started, and nobody is yet to look for one. -/
structure Quiet (s : Updatable Thread) : Prop where
  ended : ∀ t, ¬ Running s t
  none : ∀ c, starter (s.place c) = false
  inside : ∀ c, s.place c ≠ .cleans .unbackground

/-- What is asked of the calls: a background thread is started again when the last one has ended. -/
def Restarts (s : Updatable Thread) : Act Thread → Prop
  | .background _ _ => s.backgrounded = false → Quiet s
  | .unbackground _ _ | .advance _ | .loop _ => True

/-- What holds while background threads are started so. -/
structure Orderly (s : Updatable Thread) : Prop where
  lock : ∀ c, holds (s.place c) = true ↔ s.threadState = some c
  one : ∀ c d, starter (s.place c) = true → starter (s.place d) = true → c = d
  quiet : ∀ c t, starter (s.place c) = true → ¬ Running s t
  going : ∀ t, Running s t → s.backgroundThread = some t ∧ s.threadStopped ≠ 0
  ready : ∀ c, s.place c = .starts → s.threadStopped ≠ 0
  stopped : s.backgrounded = true → ∀ c, s.place c ≠ .cleans .unbackground
  free : ∀ t, s.backgrounded = true → Running s t → ∀ c, s.place c = .out

omit [DecidableEq Thread] in
theorem orderly_start : Orderly (start : Updatable Thread) where
  lock c := by simp [start, holds]
  one c d starts := by simp [start, starter] at starts
  quiet c t starts := by simp [start, starter] at starts
  going t running := by simp [start, Running] at running
  ready c starts := by simp [start] at starts
  stopped set := by simp [start] at set
  free t set := by simp [start] at set

/-- A thread goes from one place to another, and no background thread is started. -/
theorem Orderly.moves (orderly : Orderly s) {u : Updatable Thread} {p : Place}
    (place : u.place = Function.update s.place thread p) (loops : u.loops = s.loops)
    (lock : ∀ c, holds (u.place c) = true ↔ u.threadState = some c)
    (alone : starter p = true → (∀ c, c ≠ thread → starter (s.place c) = false) ∧ ∀ t, ¬ Running s t)
    (going : ∀ t, Running s t → u.backgroundThread = some t ∧ u.threadStopped ≠ 0)
    (ready : ∀ c, u.place c = .starts → u.threadStopped ≠ 0)
    (stopped : u.backgrounded = true → ∀ c, u.place c ≠ .cleans .unbackground)
    (free : u.backgrounded = true → ∀ t, ¬ Running s t) : Orderly u := by
  have same : ∀ t, Running u t ↔ Running s t := by
    intro t
    rw [Running, Running, loops]
  refine ⟨lock, fun c d first second => ?_, fun c t starts running => ?_, fun t running => going t ((same t).mp running), ready, stopped,
    fun t set running => absurd ((same t).mp running) (free set t)⟩
  · rw [place] at first second
    by_cases left : c = thread <;> by_cases right : d = thread
    · rw [left, right]
    · simp [left] at first
      simp [right, (alone first).1 d right] at second
    · simp [right] at second
      simp [left, (alone second).1 c left] at first
    · simp [left] at first
      simp [right] at second
      exact orderly.one c d first second
  · rw [place] at starts
    rw [same] at running
    by_cases there : c = thread
    · simp [there] at starts
      exact (alone starts).2 t running
    · simp [there] at starts
      exact orderly.quiet c t starts running

/-- Nobody takes or gives back the mutex. -/
theorem lock_stays (lock : ∀ c, holds (s.place c) = true ↔ s.threadState = some c) {p : Place} (same : holds p = holds (s.place thread)) :
    ∀ c, holds (Function.update s.place thread p c) = true ↔ s.threadState = some c := by
  intro c
  by_cases there : c = thread
  · rw [there, Function.update_self, same]
    exact lock thread
  · rw [Function.update_of_ne there]
    exact lock c

theorem lock_taken (lock : ∀ c, holds (s.place c) = true ↔ s.threadState = some c) {p : Place} (unlocked : s.threadState = none)
    (inside : holds p = true) : ∀ c, holds (Function.update s.place thread p c) = true ↔ some thread = some c := by
  intro c
  by_cases there : c = thread
  · simp [there, inside]
  · simp [there, lock c, unlocked, Ne.symm there]

theorem lock_released (lock : ∀ c, holds (s.place c) = true ↔ s.threadState = some c) {p : Place} (held : holds (s.place thread) = true)
    (outside : holds p = false) : ∀ c, holds (Function.update s.place thread p c) = true ↔ (none : Option Thread) = some c := by
  intro c
  by_cases there : c = thread
  · simp [there, outside]
  · simp [there, lock c, (lock thread).mp held, Ne.symm there]

theorem starts_before {u : Updatable Thread} {p : Place} {c : Thread} (starts : u.place c = .starts)
    (place : u.place = Function.update s.place thread p) (other : p ≠ .starts) : s.place c = .starts := by
  rw [place] at starts
  by_cases there : c = thread
  · simp [there] at starts
    exact absurd starts other
  · simpa [there] using starts

omit [DecidableEq Thread] in
theorem quiet_start : Quiet (start : Updatable Thread) where
  ended t running := by simp [start, Running] at running
  none c := by simp [start, starter]
  inside c := by simp [start]

theorem Orderly.background (orderly : Orderly s) (restarts : s.backgrounded = false → Quiet s) (out : s.place thread = .out) (interval : Int) :
    Orderly (s.background thread interval) := by
  rw [Updatable.background]
  split
  · exact ⟨orderly.lock, orderly.one, orderly.quiet, orderly.going, orderly.ready, orderly.stopped, orderly.free⟩
  · next unset =>
    obtain ⟨ended, none, inside⟩ := restarts (by simpa using unset)
    refine orderly.moves rfl rfl (lock_stays orderly.lock (by rw [out]; rfl)) (fun _ => ⟨fun c _ => none c, ended⟩)
      (fun t running => absurd running (ended t)) (fun c starts => orderly.ready c (starts_before starts rfl nofun)) (fun _ c => ?_)
      fun _ => ended
    by_cases there : c = thread
    · simp [Updatable.put, there]
    · simp [Updatable.put, there, inside c]

theorem Orderly.unbackground (orderly : Orderly s) (out : s.place thread = .out) (join : Bool) : Orderly (s.unbackground thread join) := by
  rw [Updatable.unbackground]
  split
  · exact orderly
  · split
    · refine orderly.moves rfl rfl (lock_stays orderly.lock (by rw [out]; rfl)) nofun orderly.going
        (fun c starts => orderly.ready c (starts_before starts rfl nofun)) nofun nofun
    · exact ⟨orderly.lock, orderly.one, orderly.quiet, orderly.going, orderly.ready, nofun, nofun⟩

/-- How a thread goes on in a call. -/
inductive Advanced (s : Updatable Thread) (thread : Thread) : Updatable Thread → Prop
  | locked (call : Call) (here : s.place thread = .cleans call) (unlocked : s.threadState = none) :
    Advanced s thread ({ s with threadState := some thread }.put thread (.checks call))
  | awaits (call : Call) (here : s.place thread = .checks call) : Advanced s thread (s.put thread (.awaits call))
  | joins (call : Call) (here : s.place thread = .awaits call) : Advanced s thread (s.put thread (.joins call))
  | cleaned (call : Call) (handle : Option ℕ) (here : s.place thread = .checks call ∨ s.place thread = .joins call)
    (ended : s.backgroundThread = none ∨ s.threadStopped = 0 ∨ (s.backgroundThread.bind fun t => s.loops[t]?) = some .ended) :
    Advanced s thread (({ s with backgroundThread := handle } : Updatable Thread).cleaned thread call)
  | resets (n : ℕ) (here : s.place thread = .creates) (unlocked : s.threadState = none) (positive : n ≠ 0) :
    Advanced s thread (({ s with threadState := some thread, threadStopped := n } : Updatable Thread).put thread .starts)
  | starts (here : s.place thread = .starts) :
    Advanced s thread (({ s with backgroundThread := some s.loops.length, loops := s.loops ++ [Loop.reads], threadState := none } :
      Updatable Thread).put thread .out)

theorem advance_cases (advanced : s.advance thread = some s') : Advanced s thread s' := by
  rw [Updatable.advance] at advanced
  cases here : s.place thread with
  | out =>
    rw [here] at advanced
    contradiction
  | cleans call =>
    simp only [here] at advanced
    obtain ⟨unlocked, same⟩ := Option.ite_none_right_eq_some.mp advanced
    obtain rfl := Option.some_inj.mp same
    exact .locked call here unlocked
  | checks call =>
    simp only [here] at advanced
    split at advanced
    · next none =>
      obtain rfl := Option.some_inj.mp advanced
      exact .cleaned call s.backgroundThread (.inl here) (.inl none)
    · split at advanced
      · obtain rfl := Option.some_inj.mp advanced
        exact .awaits call here
      · next zero =>
        obtain rfl := Option.some_inj.mp advanced
        exact .cleaned call none (.inl here) (.inr (.inl (not_not.mp zero)))
  | awaits call =>
    simp only [here] at advanced
    obtain rfl := Option.some_inj.mp advanced
    exact .joins call here
  | joins call =>
    simp only [here] at advanced
    obtain ⟨joined, same⟩ := Option.ite_none_right_eq_some.mp advanced
    obtain rfl := Option.some_inj.mp same
    exact .cleaned call none (.inr here) (.inr (.inr joined))
  | creates =>
    simp only [here] at advanced
    obtain ⟨unlocked, same⟩ := Option.ite_none_right_eq_some.mp advanced
    obtain rfl := Option.some_inj.mp same
    refine .resets _ here unlocked ?_
    split <;> omega
  | starts =>
    simp only [here] at advanced
    obtain rfl := Option.some_inj.mp advanced
    exact .starts here

omit [DecidableEq Thread] in
/-- Where `cleanUpBackgroundThread` comes to its end, no background thread is running. -/
theorem Orderly.nobody (orderly : Orderly s)
    (ended : s.backgroundThread = none ∨ s.threadStopped = 0 ∨ (s.backgroundThread.bind fun t => s.loops[t]?) = some .ended) :
    ¬ Running s t := by
  intro running
  obtain ⟨handle, latch⟩ := orderly.going t running
  rcases ended with none | zero | joined
  · rw [handle] at none
    contradiction
  · exact latch zero
  · obtain ⟨l, there, going⟩ := running
    rw [handle, Option.bind_some, there] at joined
    exact going (Option.some_inj.mp joined)

/-- A thread goes on in its call. -/
theorem Orderly.advances (orderly : Orderly s) (within : s.place thread ≠ .out) {u : Updatable Thread} {p : Place}
    (place : u.place = Function.update s.place thread p) (loops : u.loops = s.loops)
    (lock : ∀ c, holds (u.place c) = true ↔ u.threadState = some c) (starts : starter p = true → starter (s.place thread) = true)
    (going : ∀ t, Running s t → u.backgroundThread = some t ∧ u.threadStopped ≠ 0)
    (ready : ∀ c, u.place c = .starts → u.threadStopped ≠ 0)
    (set : u.backgrounded = s.backgrounded) (further : p ≠ .cleans .unbackground) : Orderly u := by
  refine orderly.moves place loops lock (fun now => ⟨fun c other => ?_, fun t => orderly.quiet thread t (starts now)⟩) going ready
    (fun on c => ?_) fun on t running => ?_
  · exact Bool.eq_false_iff.mpr fun there => other (orderly.one c thread there (starts now))
  · rw [place]
    by_cases there : c = thread
    · simpa [there] using further
    · simpa [there] using orderly.stopped (set ▸ on) c
  · exact within (orderly.free t (set ▸ on) running thread)

/-- `cleanUpBackgroundThread` comes to its end when no background thread is running. -/
theorem Orderly.cleaned (orderly : Orderly s) (held : holds (s.place thread) = true) (background : call = .background → starter (s.place thread) = true)
    (ended : ∀ t, ¬ Running s t) (handle : Option ℕ) :
    Orderly (({ s with backgroundThread := handle } : Updatable Thread).cleaned thread call) := by
  have within : s.place thread ≠ .out := by
    intro out
    rw [out] at held
    contradiction
  cases call with
  | background =>
    exact orderly.advances within rfl rfl (lock_released orderly.lock held rfl) (fun _ => background rfl)
      (fun t running => absurd running (ended t)) (fun c starts => orderly.ready c (starts_before starts rfl nofun)) rfl nofun
  | unbackground =>
    exact orderly.advances within rfl rfl (lock_released orderly.lock held rfl) nofun
      (fun t running => absurd running (ended t)) (fun c starts => orderly.ready c (starts_before starts rfl nofun)) rfl nofun

omit [DecidableEq Thread] in
theorem running_append {u : Updatable Thread} (loops : u.loops = s.loops ++ [Loop.reads]) (ended : ∀ t, ¬ Running s t) (running : Running u t) :
    t = s.loops.length := by
  obtain ⟨l, there, going⟩ := running
  rw [loops] at there
  rcases Nat.lt_trichotomy t s.loops.length with less | same | more
  · rw [List.getElem?_append_left less] at there
    exact absurd ⟨l, there, going⟩ (ended t)
  · exact same
  · rw [List.getElem?_append_right (Nat.le_of_lt more), List.getElem?_eq_none (by simp; omega)] at there
    contradiction

/-- The background thread is started. -/
theorem Orderly.started (orderly : Orderly s) (starts : s.place thread = .starts) :
    Orderly (({ s with backgroundThread := some s.loops.length, loops := s.loops ++ [Loop.reads], threadState := none } : Updatable Thread).put
      thread .out) := by
  have starting : starter (s.place thread) = true := by rw [starts]; rfl
  have ended : ∀ t, ¬ Running s t := fun t => orderly.quiet thread t starting
  have others : ∀ c, c ≠ thread → starter (s.place c) = false := fun c other =>
    Bool.eq_false_iff.mpr fun there => other (orderly.one c thread there starting)
  have none : ∀ c, starter (Function.update s.place thread .out c) = false := by
    intro c
    by_cases there : c = thread
    · simp [there, starter]
    · simp [there, others c]
  refine ⟨lock_released orderly.lock (by rw [starts]; rfl) rfl, fun c _ first => absurd first (by simp [Updatable.put, none c]),
    fun c _ first => absurd first (by simp [Updatable.put, none c]), fun t running => ?_, fun c at' => ?_, fun set c at' => ?_,
    fun _ set _ c => ?_⟩
  · rw [running_append (s := s) rfl ended running]
    exact ⟨rfl, orderly.ready thread starts⟩
  · have now := none c
    rw [show Function.update s.place thread Place.out c = .starts from at'] at now
    contradiction
  · by_cases there : c = thread
    · simp [Updatable.put, there] at at'
    · simp [Updatable.put, there] at at'
      exact orderly.stopped set c at'
  · by_cases there : c = thread
    · simp [Updatable.put, there]
    · -- Another thread does not hold the mutex, starts nothing and is not on its way to the mutex.
      have unlocked : holds (s.place c) = false := by
        rw [Bool.eq_false_iff, ne_eq, orderly.lock c, (orderly.lock thread).mp (by rw [starts]; rfl)]
        simp [Ne.symm there]
      have before := orderly.stopped set c
      have calm := others c there
      simp only [Updatable.put, Function.update_of_ne there]
      generalize s.place c = p at unlocked before calm
      rcases p with _ | (_ | _) | (_ | _) | (_ | _) | (_ | _) | _ | _ <;> simp_all [holds, starter]

theorem Orderly.advance (orderly : Orderly s) (advanced : s.advance thread = some s') : Orderly s' := by
  have goes : ∀ call, starter (.checks call) = starter (.cleans call) ∧ starter (.awaits call) = starter (.cleans call) ∧
      starter (.joins call) = starter (.cleans call) := by
    intro call
    cases call <;> exact ⟨rfl, rfl, rfl⟩
  cases advance_cases advanced with
  | locked call here unlocked =>
    exact orderly.advances (by simp [here]) rfl rfl (lock_taken orderly.lock unlocked rfl) (fun now => by rw [here, ← (goes call).1, now])
      orderly.going (fun c starts => orderly.ready c (starts_before starts rfl nofun)) rfl nofun
  | awaits call here =>
    exact orderly.advances (by simp [here]) rfl rfl (lock_stays orderly.lock (by rw [here]; rfl))
      (fun now => by rw [here, (goes call).1, ← (goes call).2.1, now]) orderly.going
      (fun c starts => orderly.ready c (starts_before starts rfl nofun)) rfl nofun
  | joins call here =>
    exact orderly.advances (by simp [here]) rfl rfl (lock_stays orderly.lock (by rw [here]; rfl))
      (fun now => by rw [here, (goes call).2.1, ← (goes call).2.2, now]) orderly.going
      (fun c starts => orderly.ready c (starts_before starts rfl nofun)) rfl nofun
  | cleaned call handle here ended =>
    refine orderly.cleaned ?_ (fun same => ?_) (fun t => orderly.nobody ended) handle
    · rcases here with here | here <;> rw [here] <;> rfl
    · rcases here with here | here <;> rw [here, same] <;> rfl
  | resets n here unlocked positive =>
    exact orderly.advances (by simp [here]) rfl rfl (lock_taken orderly.lock unlocked rfl) (fun _ => by rw [here]; rfl)
      (fun t running => ⟨(orderly.going t running).1, positive⟩) (fun c _ => positive) rfl nofun
  | starts here => exact orderly.started here

omit [DecidableEq Thread] in
theorem running_set {u : Updatable Thread} {l : Loop} {i : ℕ} (loops : u.loops = s.loops.set t l) (running : Running u i) :
    i = t ∧ l ≠ .ended ∨ i ≠ t ∧ Running s i := by
  obtain ⟨k, there, going⟩ := running
  rw [loops] at there
  by_cases same : i = t
  · obtain ⟨less, _⟩ := List.getElem?_eq_some_iff.mp there
    rw [List.length_set] at less
    rw [same, List.getElem?_set_self (same ▸ less)] at there
    exact .inl ⟨same, Option.some_inj.mp there ▸ going⟩
  · rw [List.getElem?_set_ne (Ne.symm same)] at there
    exact .inr ⟨same, k, there, going⟩

theorem cleaned_loops (s : Updatable Thread) (thread : Thread) (call : Call) : (s.cleaned thread call).loops = s.loops := by
  cases call <;> rfl

/-- What a step does to the background threads: nothing, one more is started, or one goes on. -/
theorem step_loops (stepped : step s a = some s') :
    s'.loops = s.loops ∨ s'.loops = s.loops ++ [Loop.reads] ∨ ∃ t l, Running s t ∧ s'.loops = s.loops.set t l := by
  cases a with
  | background thread interval =>
    obtain ⟨_, same⟩ := Option.ite_none_right_eq_some.mp stepped
    obtain rfl := Option.some_inj.mp same
    refine .inl ?_
    rw [Updatable.background]
    split <;> rfl
  | unbackground thread join =>
    obtain ⟨_, same⟩ := Option.ite_none_right_eq_some.mp stepped
    obtain rfl := Option.some_inj.mp same
    refine .inl ?_
    rw [Updatable.unbackground]
    split
    · rfl
    · split <;> rfl
  | advance thread =>
    cases advance_cases stepped with
    | locked | awaits | joins | resets => exact .inl rfl
    | cleaned call handle => exact .inl (cleaned_loops _ thread call)
    | starts => exact .inr (.inl rfl)
  | loop t =>
    simp only [step, Updatable.loop] at stepped
    split at stepped
    · next there =>
      obtain rfl := Option.some_inj.mp stepped
      exact .inr (.inr ⟨t, _, ⟨_, there, nofun⟩, rfl⟩)
    · next there =>
      obtain rfl := Option.some_inj.mp stepped
      exact .inr (.inr ⟨t, _, ⟨_, there, nofun⟩, rfl⟩)
    · next there =>
      obtain rfl := Option.some_inj.mp stepped
      exact .inr (.inr ⟨t, _, ⟨_, there, nofun⟩, rfl⟩)
    · contradiction
    · contradiction

/-- A background thread that has ended does not run again. -/
theorem ended_stays (stepped : step s a = some s') (less : t < s.loops.length) (ended : ¬ Running s t) :
    t < s'.loops.length ∧ ¬ Running s' t := by
  rcases step_loops stepped with same | more | ⟨i, l, running, set⟩
  · rw [same, Running, same]
    exact ⟨less, ended⟩
  · rw [more, Running, more, List.getElem?_append_left less, List.length_append]
    exact ⟨by omega, ended⟩
  · rw [set, List.length_set]
    refine ⟨less, fun now => ?_⟩
    rcases running_set set now with ⟨rfl, _⟩ | ⟨_, before⟩
    · exact ended running
    · exact ended before

omit [DecidableEq Thread] in
/-- The background thread that runs goes on. -/
theorem Orderly.goes (orderly : Orderly s) (running : Running s t) {u : Updatable Thread} (place : u.place = s.place)
    (lock : u.threadState = s.threadState) (set : u.backgrounded = s.backgrounded) (handle : u.backgroundThread = s.backgroundThread)
    (fewer : ∀ i, Running u i → Running s i ∧ u.threadStopped = s.threadStopped) : Orderly u := by
  refine ⟨?_, ?_, fun c i starts now => ?_, fun i now => ?_, fun c starts => ?_, ?_, fun i on now => ?_⟩
  · rw [place, lock]
    exact orderly.lock
  · rw [place]
    exact orderly.one
  · rw [place] at starts
    exact orderly.quiet c i starts (fewer i now).1
  · rw [handle, (fewer i now).2]
    exact orderly.going i (fewer i now).1
  · rw [place] at starts
    exact absurd running (orderly.quiet c t (by rw [starts]; rfl))
  · rw [place, set]
    exact orderly.stopped
  · rw [place]
    exact orderly.free i (set ▸ on) (fewer i now).1

omit [DecidableEq Thread] in
theorem Orderly.loop (orderly : Orderly s) (looped : s.loop t = some s') : Orderly s' := by
  have further : ∀ (l : Loop) (k : Loop), s.loops[t]? = some l → l ≠ .ended → k ≠ .ended →
      ∀ u : Updatable Thread, u.loops = s.loops.set t k → ∀ i, Running u i → Running s i := by
    intro l k there before after u set i now
    rcases running_set set now with ⟨rfl, _⟩ | ⟨_, first⟩
    · exact ⟨l, there, before⟩
    · exact first
  rw [Updatable.loop] at looped
  split at looped
  · next there =>
    obtain rfl := Option.some_inj.mp looped
    exact orderly.goes ⟨_, there, nofun⟩ rfl rfl rfl rfl fun i now => ⟨further _ _ there nofun (by split <;> nofun) _ rfl i now, rfl⟩
  · next there =>
    obtain rfl := Option.some_inj.mp looped
    exact orderly.goes ⟨_, there, nofun⟩ rfl rfl rfl rfl fun i now => ⟨further _ .reads there nofun nofun _ rfl i now, rfl⟩
  · next there =>
    obtain rfl := Option.some_inj.mp looped
    have running : Running s t := ⟨_, there, nofun⟩
    refine orderly.goes running rfl rfl rfl rfl fun i now => ?_
    rcases running_set (s := s) rfl now with ⟨_, going⟩ | ⟨other, first⟩
    · contradiction
    · exact absurd (Option.some_inj.mp ((orderly.going i first).1.symm.trans (orderly.going t running).1)) other
  · contradiction
  · contradiction

theorem Orderly.step (orderly : Orderly s) (restarts : Restarts s a) (stepped : step s a = some s') : Orderly s' := by
  cases a with
  | background thread interval =>
    obtain ⟨out, same⟩ := Option.ite_none_right_eq_some.mp stepped
    obtain rfl := Option.some_inj.mp same
    exact orderly.background restarts out interval
  | unbackground thread join =>
    obtain ⟨out, same⟩ := Option.ite_none_right_eq_some.mp stepped
    obtain rfl := Option.some_inj.mp same
    exact orderly.unbackground out join
  | advance thread => exact orderly.advance stepped
  | loop t => exact orderly.loop stepped

theorem orderly_runs (run : runs step start acts = some s) (restarts : Every step Restarts start acts) : Orderly s :=
  runs_every (fun _ _ _ orderly restarts stepped => orderly.step restarts stepped) orderly_start restarts run

omit [DecidableEq Thread] in
/-- A background thread that goes on changes nothing but itself and the latch. -/
theorem loop_frame (looped : s.loop t = some s') : s'.place = s.place ∧ s'.backgrounded = s.backgrounded := by
  rw [Updatable.loop] at looped
  split at looped
  · obtain rfl := Option.some_inj.mp looped
    exact ⟨rfl, rfl⟩
  · obtain rfl := Option.some_inj.mp looped
    exact ⟨rfl, rfl⟩
  · obtain rfl := Option.some_inj.mp looped
    exact ⟨rfl, rfl⟩
  · contradiction
  · contradiction

theorem advance_place (advanced : s.advance thread = some s') : ∃ p, s'.place = Function.update s.place thread p := by
  cases advance_cases advanced with
  | locked | awaits | joins | resets | starts => exact ⟨_, rfl⟩
  | cleaned call => cases call <;> exact ⟨_, rfl⟩

/-- A step moves one thread at most, which makes a call or goes on in one. -/
theorem step_place (stepped : step s a = some s') :
    s'.place = s.place ∨ ∃ c p, s'.place = Function.update s.place c p ∧ (s.place c = .out ∨ a = .advance c) := by
  cases a with
  | background c interval =>
    obtain ⟨out, same⟩ := Option.ite_none_right_eq_some.mp stepped
    obtain rfl := Option.some_inj.mp same
    rw [Updatable.background]
    split
    · exact .inl rfl
    · exact .inr ⟨c, _, rfl, .inl out⟩
  | unbackground c join =>
    obtain ⟨out, same⟩ := Option.ite_none_right_eq_some.mp stepped
    obtain rfl := Option.some_inj.mp same
    rw [Updatable.unbackground]
    split
    · exact .inl rfl
    · split
      · exact .inr ⟨c, _, rfl, .inl out⟩
      · exact .inl rfl
  | advance c =>
    obtain ⟨p, place⟩ := advance_place stepped
    exact .inr ⟨c, p, place, .inr rfl⟩
  | loop t => exact .inl (loop_frame stepped).1

/-- A thread in `unbackground(true)` comes back when no background thread is running. -/
theorem stopper_advance (orderly : Orderly s) (advanced : s.advance thread = some s') (stopping : stopper (s.place thread) = true) :
    stopper (s'.place thread) = true ∨ ∀ t, ¬ Running s' t := by
  have still : ∀ (u : Updatable Thread) (p : Place), u.place = Function.update s.place thread p → stopper p = true →
      stopper (u.place thread) = true := by
    intro u p place now
    rw [place, Function.update_self]
    exact now
  -- A call of `unbackground` stays one from place to place.
  have goes : ∀ call, stopper (.checks call) = stopper (.cleans call) ∧ stopper (.awaits call) = stopper (.checks call) ∧
      stopper (.joins call) = stopper (.awaits call) := by
    intro call
    cases call <;> exact ⟨rfl, rfl, rfl⟩
  cases advance_cases advanced with
  | locked call here => exact .inl (still _ _ rfl ((goes call).1.trans (here ▸ stopping)))
  | awaits call here => exact .inl (still _ _ rfl ((goes call).2.1.trans (here ▸ stopping)))
  | joins call here => exact .inl (still _ _ rfl ((goes call).2.2.trans (here ▸ stopping)))
  | cleaned call handle _ ended =>
    refine .inr fun t => ?_
    rw [Running, cleaned_loops]
    exact orderly.nobody ended
  | resets n here =>
    rw [here] at stopping
    contradiction
  | starts here =>
    rw [here] at stopping
    contradiction

/-- Where a thread is in `unbackground(true)`, it is there after a step, or has come back. -/
theorem stopper_step (orderly : Orderly s) (stepped : step s a = some s') (stopping : stopper (s.place thread) = true) :
    stopper (s'.place thread) = true ∨ ∀ t, ¬ Running s' t := by
  rcases step_place stepped with same | ⟨c, p, place, mine⟩
  · rw [same]
    exact .inl stopping
  · by_cases there : c = thread
    · rcases mine with out | rfl
      · rw [there.symm, out] at stopping
        contradiction
      · exact stopper_advance orderly (there ▸ stepped) stopping
    · rw [place, Function.update_of_ne (Ne.symm there)]
      exact .inl stopping

/-- What is asked of background threads, after some actions. -/
structure LifeCycle (acts : List (Act Thread)) (s : Updatable Thread) : Prop where
  /-- One background thread is running at most. -/
  one : ∀ t u, Running s t → Running s u → t = u
  /-- When `unbackground(true)` has come back, no background thread that was there before it is running. -/
  joined : ∀ xs ys zs c u v, acts = xs ++ (.unbackground c true :: ys) ++ zs → runs step start xs = some u →
    runs step u (.unbackground c true :: ys) = some v → v.place c = .out → ∀ t < u.loops.length, ¬ Running s t
  /-- Nobody waits for a background thread to end while the flag keeps it going. -/
  free : ∀ c call t, s.place c = .awaits call ∨ s.place c = .joins call → s.backgroundThread = some t → Running s t →
    s.backgrounded = false

/-- From the call of `unbackground(true)` on, the thread is in it or the background threads that were there have ended. -/
theorem joined_runs {n : ℕ} {acts : List (Act Thread)} (orderly : Orderly s) (restarts : Every step Restarts s acts)
    (run : runs step s acts = some s') (less : n ≤ s.loops.length)
    (stopping : stopper (s.place thread) = true ∨ ∀ t < n, ¬ Running s t) :
    n ≤ s'.loops.length ∧ (stopper (s'.place thread) = true ∨ ∀ t < n, ¬ Running s' t) := by
  have keeps : ∀ (s : Updatable Thread) a s',
      (Orderly s ∧ n ≤ s.loops.length ∧ (stopper (s.place thread) = true ∨ ∀ t < n, ¬ Running s t)) → Restarts s a → step s a = some s' →
      Orderly s' ∧ n ≤ s'.loops.length ∧ (stopper (s'.place thread) = true ∨ ∀ t < n, ¬ Running s' t) := by
    rintro s a s' ⟨orderly, less, stopping⟩ restarts stepped
    have longer : n ≤ s'.loops.length := by
      rcases step_loops stepped with same | more | ⟨i, l, _, set⟩
      · rwa [same]
      · rw [more, List.length_append]
        omega
      · rwa [set, List.length_set]
    refine ⟨orderly.step restarts stepped, longer, ?_⟩
    rcases stopping with stopping | ended
    · rcases stopper_step orderly stepped stopping with still | gone
      · exact .inl still
      · exact .inr fun t _ => gone t
    · exact .inr fun t early => (ended_stays stepped (Nat.lt_of_lt_of_le early less) (ended t early)).2
  exact (runs_every keeps ⟨orderly, less, stopping⟩ restarts run).2

/-- While background threads are started again when the last one has ended, and nobody is yet to look for one. -/
theorem life_cycle (run : runs step start acts = some s) (restarts : Every step Restarts start acts) : LifeCycle acts s := by
  have orderly := orderly_runs run restarts
  refine ⟨fun t u first second => ?_, fun xs ys zs c u v same before during out t less => ?_, fun c call t waits _ running => ?_⟩
  · exact Option.some_inj.mp ((orderly.going t first).1.symm.trans (orderly.going u second).1)
  · rw [same] at run restarts
    have fine := every_front restarts
    have atCall := orderly_runs before (every_front fine)
    -- Right after the call the thread is on its way to the mutex.
    obtain ⟨w, called, later⟩ := Option.bind_eq_some_iff.mp during
    obtain ⟨_, moved⟩ := Option.ite_none_right_eq_some.mp called
    have there : stopper (w.place c) = true := by
      rw [← Option.some_inj.mp moved]
      simp [Updatable.unbackground, Updatable.put, stopper]
    have kept : u.loops = w.loops := by
      rw [← Option.some_inj.mp moved]
      simp [Updatable.unbackground, Updatable.put]
    have asked := every_back fine before
    have orderlyAfter := atCall.step asked.1 called
    obtain ⟨longer, ended⟩ := joined_runs orderlyAfter (asked.2 w called) later (Nat.le_of_eq (congrArg List.length kept)) (.inl there)
    have gone : ∀ t < u.loops.length, ¬ Running v t := by
      rcases ended with still | gone
      · rw [out] at still
        contradiction
      · exact gone
    -- What has ended stays so.
    obtain ⟨v', front, back⟩ := runs_front run
    obtain rfl : v = v' := by
      rw [runs_append, before, Option.bind_some, during] at front
      exact Option.some_inj.mp front
    exact (runs_invariant (I := fun _ s => t < s.loops.length ∧ ¬ Running s t) ⟨Nat.lt_of_lt_of_le less longer, gone t less⟩
      (fun _ _ _ _ _ inv stepped => ended_stays stepped inv.1 inv.2) back).2
  · by_contra set
    have out := orderly.free t (by simpa using set) running c
    rcases waits with waits | waits <;> rw [waits] at out <;> contradiction

end

/-- One thread starts the background thread, and a stop that waits for it. -/
def startedAndStopped : List (Act Unit) := .background () 100 ::
  [.advance (), .advance (), .advance (), .advance (), .loop 0, .unbackground () true, .advance (), .advance (),
    .advance (), .loop 0, .loop 0, .loop 0, .advance ()]

/-- The stop comes back, and no background thread is running. -/
theorem life_cycle_stopped : ∃ s, runs step start startedAndStopped = some s ∧ s.place () = .out ∧ LifeCycle startedAndStopped s :=
  ⟨_, rfl, rfl, life_cycle rfl ⟨fun _ => quiet_start, fun _ _ => every_of_all (by simp [Restarts])⟩⟩

/-- A stop that does not wait, and a start while the background thread is still running. -/
def restarted : List (Act Unit) :=
  [.background () 100, .advance (), .advance (), .advance (), .advance (), .unbackground () false, .background () 100, .advance (), .advance ()]

/-- The start waits for the background thread to end, and has set the flag that keeps it going. -/
theorem not_life_cycle : ¬ ∀ (acts : List (Act Unit)) (s : Updatable Unit), runs step start acts = some s → LifeCycle acts s := by
  intro all
  have run : ∃ s, runs step start restarted = some s ∧ s.place () = .awaits .background ∧ s.backgroundThread = some 0 ∧
      s.loops[0]? = some .reads ∧ s.backgrounded = true := ⟨_, rfl, rfl, rfl, rfl, rfl⟩
  obtain ⟨s, run, waits, handle, reads, set⟩ := run
  have unset := (all restarted s run).free () .background 0 (.inl waits) handle ⟨_, reads, nofun⟩
  rw [set] at unset
  contradiction

end Tortuga.BackgroundThreads
