import Tortuga.EventPlayer
import Mathlib.Algebra.Order.Ring.Rat
import Mathlib.Tactic.Linarith
import Mathlib.Tactic.Ring

/-!
What the player of event logs publishes over a whole sequence of calls (`EventPlayer.cpp`): no event
too early, the events in the order of the log, and after a seek first the one that was sought, where
there is one.
-/
namespace Tortuga.Playback
open Tortuga.EventPlayer

section
variable {E P : Type} {clone : E → E} {p p' : PlayerThread E P} {event : LogEvent E P} {out : Option (Publication E P)}
  {t s : ℚ} {ts : List ℚ}

/-- What the clock of the player shows, against which the time of an event is held. -/
def playClock (p : PlayerThread E P) (timeOfDay : ℚ) : ℚ := timeOfDay - p.stopageTime - p.startTime

/-- A seek moves the clock by the way from the current time to the new one. -/
theorem playClock_seekToTime (p : PlayerThread E P) (s t : ℚ) :
    playClock (p.seekToTime s) t = playClock p t + (s - p.currentTime) := by
  have stopage : (p.seekToTime s).stopageTime = p.stopageTime + (p.currentTime - s) ∧ (p.seekToTime s).startTime = p.startTime := by
    rw [PlayerThread.seekToTime]
    dsimp only
    split <;> exact ⟨rfl, rfl⟩
  rw [playClock, playClock, stopage.1, stopage.2]
  ring

/-- The clock goes on where it was stopped. -/
theorem playClock_start (p : PlayerThread E P) (t t' : ℚ) (real : t ≠ -1) :
    playClock ((p.stop t).start t') t' = playClock p t := by
  rw [PlayerThread.stop, PlayerThread.start, if_pos real, playClock, playClock]
  ring

theorem wait_spec (waited : p.wait ts = some t) : p.currentTime ≤ playClock p t := by
  induction ts with
  | nil => contradiction
  | cons now rest ih =>
    rw [PlayerThread.wait] at waited
    split at waited
    · exact ih waited
    · next late =>
      obtain rfl : now = t := Option.some_inj.mp waited
      rw [playClock]
      linarith

/-- An update publishes the present event, when the clock has come to it, or there is none. -/
theorem update_cases (updated : p.update clone ts = some (p', out)) :
    p.pastEvents.length ≤ p.presentEvent ∧ p' = p ∧ out = none ∨
    ∃ event t, p.pastEvents[p.presentEvent]? = some event ∧ event.timeStamp ≤ playClock p t ∧
      p' = { p with currentTime := event.timeStamp, presentEvent := p.presentEvent + 1 } ∧
      out = some ⟨p.presentEvent, ⟨clone event.data, event.sender, p.startTime + event.timeStamp + p.stopageTime⟩, t⟩ := by
  rw [PlayerThread.update] at updated
  split at updated
  · next none =>
    obtain ⟨rfl, rfl⟩ := Prod.mk.inj (Option.some_inj.mp updated)
    exact .inl ⟨List.getElem?_eq_none_iff.mp none, rfl, rfl⟩
  · next event found =>
    obtain ⟨t, waited, done⟩ := Option.map_eq_some_iff.mp updated
    obtain ⟨rfl, rfl⟩ := Prod.mk.inj done
    exact .inr ⟨event, t, found, wait_spec waited, rfl, rfl⟩

/-- An update does not sleep when the clock has come to every event. -/
theorem update_returns (reached : ∀ event ∈ p.pastEvents, event.timeStamp ≤ playClock p t) : (p.update clone (t :: ts)).isSome := by
  rw [PlayerThread.update]
  split
  · rfl
  · next event found =>
    have awake : ¬ t - p.stopageTime < event.timeStamp + p.startTime := by
      have now := reached event (List.mem_of_getElem? found)
      rw [playClock] at now
      linarith
    dsimp only
    rw [PlayerThread.wait, if_neg awake]
    rfl

/-- The place in a list of events that a seek looks for. -/
structure First (events : List (LogEvent E P)) (s : ℚ) (i : ℕ) : Prop where
  found : ∃ event, events[i]? = some event ∧ s ≤ event.timeStamp
  before : ∀ j < i, ∀ event, events[j]? = some event → event.timeStamp < s

/-- There is an event to be sought, or the player has come to the end of the log. -/
def Seekable (p : PlayerThread E P) (s : ℚ) : Prop := (∃ event ∈ p.pastEvents, s ≤ event.timeStamp) ∨ p.pastEvents.length ≤ p.presentEvent

/-- After a seek the present event is the one that was sought, or there is none at all. -/
theorem seekToTime_present (seekable : Seekable p s) :
    First p.pastEvents s (p.seekToTime s).presentEvent ∨
    (∀ event ∈ p.pastEvents, event.timeStamp < s) ∧ p.pastEvents.length ≤ (p.seekToTime s).presentEvent := by
  rw [PlayerThread.seekToTime]
  dsimp only
  split
  · next i found =>
    obtain ⟨less, here, early⟩ := List.findIdx?_eq_some_iff_getElem.mp found
    refine .inl ⟨⟨_, List.getElem?_eq_getElem less, of_decide_eq_true here⟩, fun j before event there => ?_⟩
    obtain ⟨inside, rfl⟩ := List.getElem?_eq_some_iff.mp there
    exact not_le.mp fun late => early j before (decide_eq_true late)
  · next none =>
    have all : ∀ event ∈ p.pastEvents, event.timeStamp < s := fun event member =>
      not_le.mp (of_decide_eq_false (List.findIdx?_eq_none_iff.mp none event member))
    refine .inr ⟨all, ?_⟩
    rcases seekable with ⟨event, member, late⟩ | passed
    · exact absurd late (not_le.mpr (all event member))
    · exact passed

end

/-! ### Runs -/

/-- A seek. -/
def Call.Seeks (call : Call) : Prop := ∃ s, call = .seekToTime s

section
variable {E P : Type} {clone : E → E} {timeOfDay : ℚ} {log : List (LogEvent E P)} {calls : ℕ → Call} {n j k : ℕ}
  (run : Run clone timeOfDay log calls n)

/-- A call other than a seek leaves the present event alone, or publishes it and goes on to the next. -/
theorem step_present {p p' : PlayerThread E P} {call : Call} {out : Option (Publication E P)} (stepped : step clone p call = some (p', out))
    (other : ¬ Call.Seeks call) :
    out = none ∧ p'.presentEvent = p.presentEvent ∨
    ∃ e, out = some e ∧ e.index = p.presentEvent ∧ p'.presentEvent = p.presentEvent + 1 := by
  cases call with
  | start t =>
    obtain ⟨rfl, rfl⟩ := Prod.mk.inj (Option.some_inj.mp stepped)
    refine .inl ⟨rfl, ?_⟩
    rw [PlayerThread.start]
    split <;> rfl
  | stop t =>
    obtain ⟨rfl, rfl⟩ := Prod.mk.inj (Option.some_inj.mp stepped)
    exact .inl ⟨rfl, rfl⟩
  | seekToTime s => exact absurd ⟨s, rfl⟩ other
  | update ts =>
    rcases update_cases stepped with ⟨_, rfl, rfl⟩ | ⟨event, t, _, _, rfl, rfl⟩
    · exact .inl ⟨rfl, rfl⟩
    · exact .inr ⟨_, rfl, rfl, rfl⟩

theorem step_past {p p' : PlayerThread E P} {call : Call} {out : Option (Publication E P)} (stepped : step clone p call = some (p', out)) :
    p'.pastEvents = p.pastEvents := by
  cases call with
  | start t =>
    obtain ⟨rfl, rfl⟩ := Prod.mk.inj (Option.some_inj.mp stepped)
    rw [PlayerThread.start]
    split <;> rfl
  | stop t =>
    obtain ⟨rfl, rfl⟩ := Prod.mk.inj (Option.some_inj.mp stepped)
    rfl
  | seekToTime s =>
    obtain ⟨rfl, rfl⟩ := Prod.mk.inj (Option.some_inj.mp stepped)
    rw [PlayerThread.seekToTime]
    dsimp only
    split <;> rfl
  | update ts =>
    rcases update_cases stepped with ⟨_, rfl, rfl⟩ | ⟨event, t, _, _, rfl, rfl⟩ <;> rfl

/-- Only an update publishes. -/
theorem step_published {p p' : PlayerThread E P} {call : Call} {e : Publication E P} (stepped : step clone p call = some (p', some e)) :
    ∃ event, p.pastEvents[e.index]? = some event ∧ e.index = p.presentEvent ∧ event.timeStamp ≤ playClock p e.timeOfDay ∧
      e.event.data = clone event.data ∧ e.event.sender = event.sender := by
  cases call with
  | start t => exact absurd (congrArg Prod.snd (Option.some_inj.mp stepped)) nofun
  | stop t => exact absurd (congrArg Prod.snd (Option.some_inj.mp stepped)) nofun
  | seekToTime s => exact absurd (congrArg Prod.snd (Option.some_inj.mp stepped)) nofun
  | update ts =>
    rcases update_cases stepped with ⟨_, _, none⟩ | ⟨event, t, found, late, _, same⟩
    · contradiction
    · obtain rfl := Option.some_inj.mp same
      exact ⟨event, found, rfl, late, rfl, rfl⟩

theorem run_past (less : k ≤ n) : (run.players k).pastEvents = readLog clone (-1) log := by
  induction k with
  | zero =>
    rw [run.start]
    rfl
  | succ k ih => rw [step_past (run.steps k less), ih (Nat.le_of_succ_le less)]

/-- Without a seek the player goes on, from event to event. -/
theorem present_mono (order : j ≤ k) (less : k ≤ n) (other : ∀ m, j ≤ m → m < k → ¬ Call.Seeks (calls m)) :
    (run.players j).presentEvent ≤ (run.players k).presentEvent := by
  induction k, order using Nat.le_induction with
  | base => exact Nat.le_refl _
  | succ k order ih =>
    have before := ih (Nat.le_of_succ_le less) fun m after early => other m after (Nat.lt_succ_of_lt early)
    rcases step_present (run.steps k less) (other k order (Nat.lt_succ_self k)) with ⟨_, same⟩ | ⟨_, _, _, next⟩
    · rw [same]
      exact before
    · rw [next]
      exact Nat.le_succ_of_le before

theorem present_same (order : j ≤ k) (less : k ≤ n) (other : ∀ m, j ≤ m → m < k → ¬ Call.Seeks (calls m) ∧ run.published m = none) :
    (run.players k).presentEvent = (run.players j).presentEvent := by
  induction k, order using Nat.le_induction with
  | base => rfl
  | succ k order ih =>
    obtain ⟨calm, silent⟩ := other k order (Nat.lt_succ_self k)
    rw [← ih (Nat.le_of_succ_le less) fun m after early => other m after (Nat.lt_succ_of_lt early)]
    rcases step_present (run.steps k less) calm with ⟨_, same⟩ | ⟨e, sent, _⟩
    · exact same
    · rw [silent] at sent
      contradiction

/-- What a player of a log is for. -/
structure Plays : Prop where
  /-- What is published is an event of the log, and the clock has come to its time. -/
  onTime : ∀ k < n, ∀ e, run.published k = some e → ∃ event, (readLog clone (-1) log)[e.index]? = some event ∧
    event.timeStamp ≤ playClock (run.players k) e.timeOfDay ∧ e.event.data = clone event.data ∧ e.event.sender = event.sender
  /-- Between two seeks the events come in the order of the log, each at most once. -/
  inOrder : ∀ j k, j < k → k < n → (∀ m, j < m → m < k → ¬ Call.Seeks (calls m)) →
    ∀ d e, run.published j = some d → run.published k = some e → d.index < e.index
  /-- The first event after a seek is the first of the log that is not before the time that was sought. -/
  first : ∀ j k, j < k → k < n → (∀ m, j < m → m < k → ¬ Call.Seeks (calls m) ∧ run.published m = none) →
    ∀ s e, calls j = .seekToTime s → run.published k = some e → First (readLog clone (-1) log) s e.index
  /-- Where all events are before that time, none is published until the next seek. -/
  past : ∀ j k, j < k → k < n → (∀ m, j < m → m < k → ¬ Call.Seeks (calls m)) →
    ∀ s, calls j = .seekToTime s → (∀ event ∈ readLog clone (-1) log, event.timeStamp < s) → run.published k = none

/-- The player does so when each seek has something to be sought, or is made at the end of the log. -/
theorem playback (seekable : ∀ k < n, ∀ s, calls k = .seekToTime s → Seekable (run.players k) s) : Plays run := by
  have sought {j : ℕ} {s : ℚ} (less : j < n) (seek : calls j = .seekToTime s) :
      First (readLog clone (-1) log) s (run.players (j + 1)).presentEvent ∨
      (∀ event ∈ readLog clone (-1) log, event.timeStamp < s) ∧ (readLog clone (-1) log).length ≤ (run.players (j + 1)).presentEvent := by
    have stepped := run.steps j less
    rw [seek] at stepped
    have after : run.players (j + 1) = (run.players j).seekToTime s := (Prod.mk.inj (Option.some_inj.mp stepped)).1.symm
    rw [after, ← run_past run (Nat.le_of_lt less)]
    exact seekToTime_present (seekable j less s seek)
  have sent {k : ℕ} {e : Publication E P} (less : k < n) (published : run.published k = some e) := step_published
    (by rw [← published]; exact run.steps k less)
  refine ⟨fun k less e published => ?_, fun j k order less calm d e first second => ?_, fun j k order less calm s e seek published => ?_,
    fun j k order less calm s seek all => ?_⟩
  · obtain ⟨event, found, _, late, same⟩ := sent less published
    rw [run_past run (Nat.le_of_lt less)] at found
    exact ⟨event, found, late, same⟩
  · obtain ⟨_, _, here, _⟩ := sent (order.trans less) first
    obtain ⟨_, _, there, _⟩ := sent less second
    have notSeek : ¬ Call.Seeks (calls j) := by
      rintro ⟨s, seek⟩
      have stepped := run.steps j (order.trans less)
      rw [seek, first] at stepped
      exact absurd (congrArg Prod.snd (Option.some_inj.mp stepped)) nofun
    have next : (run.players (j + 1)).presentEvent = (run.players j).presentEvent + 1 := by
      rcases step_present (run.steps j (order.trans less)) notSeek with ⟨none, _⟩ | ⟨_, _, _, next⟩
      · rw [first] at none
        contradiction
      · exact next
    have mono := present_mono run order (Nat.le_of_lt less) calm
    rw [next] at mono
    rw [here, there]
    exact mono
  · obtain ⟨_, found, there, _⟩ := sent less published
    have same := present_same run order (Nat.le_of_lt less) calm
    rw [there, same]
    rcases sought (order.trans less) seek with first | ⟨_, passed⟩
    · exact first
    · rw [run_past run (Nat.le_of_lt less), there, same, List.getElem?_eq_none passed] at found
      contradiction
  · have mono := present_mono run order (Nat.le_of_lt less) calm
    have passed : (readLog clone (-1) log).length ≤ (run.players (j + 1)).presentEvent := by
      rcases sought (order.trans less) seek with ⟨⟨event, found, late⟩, _⟩ | ⟨_, passed⟩
      · exact absurd late (not_le.mpr (all event (List.mem_of_getElem? found)))
      · exact passed
    cases published : run.published k with
    | none => rfl
    | some e =>
      obtain ⟨_, found, there, _⟩ := sent less published
      rw [run_past run (Nat.le_of_lt less), there, List.getElem?_eq_none (passed.trans mono)] at found
      contradiction

/-- The player after so many calls, where those that do not return change nothing. -/
def playerAt (clone : E → E) (timeOfDay : ℚ) (log : List (LogEvent E P)) (calls : ℕ → Call) : ℕ → PlayerThread E P
  | 0 => .init clone timeOfDay log
  | k + 1 => ((step clone (playerAt clone timeOfDay log calls k) (calls k)).map Prod.fst).getD (playerAt clone timeOfDay log calls k)

/-- Calls that return are a run. -/
def runOf (returns : ∀ k < n, (step clone (playerAt clone timeOfDay log calls k) (calls k)).isSome) : Run clone timeOfDay log calls n where
  players := playerAt clone timeOfDay log calls
  published k := (step clone (playerAt clone timeOfDay log calls k) (calls k)).bind Prod.snd
  start := rfl
  steps k less := by
    obtain ⟨⟨p, out⟩, stepped⟩ := Option.isSome_iff_exists.mp (returns k less)
    rw [playerAt, stepped]
    rfl

end

/-- Events a second apart. -/
def twoEvents : List (LogEvent ℕ Unit) := [⟨7, none, 0⟩, ⟨8, none, 1⟩]

/-- A seek before anything was published, and an update. -/
def seekThenUpdate (s : ℚ) (k : ℕ) : Call := [Call.seekToTime s].getD k (.update [0])

theorem readLog_twoEvents : readLog id (-1) twoEvents = twoEvents := by simp [readLog, twoEvents]

/-- With the clock at its start an update after the seek returns, since the seek moves the clock on. -/
theorem seekThenUpdate_returns (s : ℚ) (enough : 0 ≤ s) : ∀ k < 2,
    (step id (playerAt id 0 twoEvents (seekThenUpdate s) k) (seekThenUpdate s k)).isSome
  | 0, _ => rfl
  | 1, _ => by
    refine update_returns fun event member => ?_
    have events : (playerAt id 0 twoEvents (seekThenUpdate s) 1).pastEvents = twoEvents := by
      have stepped : step id (PlayerThread.init id 0 twoEvents) (.seekToTime s) =
          some (playerAt id 0 twoEvents (seekThenUpdate s) 1, none) := rfl
      rw [step_past stepped]
      exact readLog_twoEvents
    have clock : playClock (playerAt id 0 twoEvents (seekThenUpdate s) 1) 0 = s + 1 := by
      have moved := playClock_seekToTime (PlayerThread.init id 0 twoEvents) s 0
      have atStart : playClock (PlayerThread.init id 0 twoEvents) 0 = 0 := by simp [playClock, PlayerThread.init]
      rw [atStart] at moved
      refine moved.trans ?_
      rw [PlayerThread.init]
      ring
    rw [events] at member
    rw [clock]
    have early : ∀ event ∈ twoEvents, event.timeStamp ≤ 1 := by decide
    linarith [early event member]

/-- The second event is sought, and published. -/
theorem playback_second : Plays (runOf (seekThenUpdate_returns 1 (by decide))) :=
  playback _ fun k less s seek => by
    cases k with
    | zero =>
      obtain rfl : 1 = s := Call.seekToTime.inj seek
      refine .inl ⟨⟨8, none, 1⟩, ?_, le_refl 1⟩
      have member : (⟨8, none, 1⟩ : LogEvent ℕ Unit) ∈ twoEvents := List.mem_cons_of_mem _ List.mem_cons_self
      rw [← readLog_twoEvents] at member
      exact member
    | succ k => exact absurd seek nofun

/-- A seek past the end, before the end is reached, leaves the present event where it is, and it is published next. -/
theorem not_playback : ¬ ∀ (log : List (LogEvent ℕ Unit)), log.Pairwise (fun a b => a.timeStamp ≤ b.timeStamp) →
    ∀ (timeOfDay : ℚ) (calls : ℕ → Call) (n : ℕ) (run : Run id timeOfDay log calls n), Plays run := by
  intro all
  have sorted : twoEvents.Pairwise fun a b => a.timeStamp ≤ b.timeStamp := by decide
  let run := runOf (seekThenUpdate_returns 5 (by decide))
  have plays := all twoEvents sorted 0 (seekThenUpdate 5) 2 run
  have before : ∀ event ∈ readLog id (-1) twoEvents, event.timeStamp < 5 := by
    rw [readLog_twoEvents]
    decide
  have silent := plays.past 0 1 Nat.zero_lt_one Nat.one_lt_two (fun m after early => absurd early (Nat.not_lt.mpr after)) 5 rfl before
  have updated := run.steps 1 Nat.one_lt_two
  rw [silent] at updated
  rcases update_cases updated with ⟨passed, _, _⟩ | ⟨_, _, _, _, _, some⟩
  · have atStart : (run.players 1).presentEvent = 0 := by
      have sought : run.players 1 = (PlayerThread.init id 0 twoEvents).seekToTime 5 := rfl
      rw [sought, PlayerThread.seekToTime, PlayerThread.init, readLog_twoEvents]
      rfl
    rw [run_past run Nat.one_lt_two.le, readLog_twoEvents, atStart] at passed
    exact absurd passed (Nat.not_succ_le_zero 1)
  · contradiction

end Tortuga.Playback
