import Mathlib.Data.List.Basic
import Mathlib.Data.Rat.Defs

/-!
The player of event logs (`EventPlayer.cpp`): the thread that publishes the events of a log again,
each when the clock has come to it, and that can be stopped, started and sent to another time.
-/
namespace Tortuga.EventPlayer

/-- An event of a log: its data, the one who published it, and when. -/
structure LogEvent (E P : Type) where
  data : E
  sender : Option P
  timeStamp : ℚ

/-- `PlayerThread`, without the file and the hub. -/
structure PlayerThread (E P : Type) where
  startTime : ℚ
  currentTime : ℚ
  stoppedTime : ℚ
  stopageTime : ℚ
  duration : ℚ
  pastEvents : List (LogEvent E P)
  presentEvent : ℕ

/-- A call from outside, with what the clock shows each time it is read. -/
inductive Call
  | start (timeOfDay : ℚ)
  | stop (timeOfDay : ℚ)
  | seekToTime (seconds : ℚ)
  | update (timesOfDay : List ℚ)

/-- An event is published, by its sender or by the hub where it has none. `index` is its place in the log, and
    `timeOfDay` when that happens. -/
structure Publication (E P : Type) where
  index : ℕ
  event : LogEvent E P
  timeOfDay : ℚ

section
variable {E P : Type} (clone : E → E)

/-- The events of a log are cloned, with the time since the first of them. -/
def readLog : ℚ → List (LogEvent E P) → List (LogEvent E P)
  | _, [] => []
  | firstEventTime, event :: rest =>
    let first := if -1 = firstEventTime then event.timeStamp else firstEventTime
    { event with data := clone event.data, timeStamp := event.timeStamp - first } :: readLog first rest

/-- `init`, at a time of day. -/
def PlayerThread.init (timeOfDay : ℚ) (log : List (LogEvent E P)) : PlayerThread E P where
  startTime := timeOfDay
  currentTime := -1
  stoppedTime := -1
  stopageTime := 0
  duration := ((readLog clone (-1) log).getLast?.map LogEvent.timeStamp).getD 0
  pastEvents := readLog clone (-1) log
  presentEvent := 0

namespace PlayerThread

def seekToTime (p : PlayerThread E P) (seconds : ℚ) : PlayerThread E P :=
  let sought := { p with stopageTime := p.stopageTime + (p.currentTime - seconds), currentTime := seconds }
  match p.pastEvents.findIdx? fun event => seconds ≤ event.timeStamp with
  | some i => { sought with presentEvent := i }
  | none => sought

def start (p : PlayerThread E P) (timeOfDay : ℚ) : PlayerThread E P :=
  if p.stoppedTime ≠ -1 then { p with stopageTime := p.stopageTime + (timeOfDay - p.stoppedTime) } else p

def stop (p : PlayerThread E P) (timeOfDay : ℚ) : PlayerThread E P := { p with stoppedTime := timeOfDay }

/-- The thread sleeps until the clock has come to a time: when it goes on, if it does. -/
def wait (p : PlayerThread E P) : List ℚ → Option ℚ
  | [] => none
  | timeOfDay :: rest => if timeOfDay - p.stopageTime < p.currentTime + p.startTime then p.wait rest else some timeOfDay

/-- One event is published, if there is one. The call does not return while it sleeps. -/
def update (p : PlayerThread E P) (timesOfDay : List ℚ) : Option (PlayerThread E P × Option (Publication E P)) :=
  match p.pastEvents[p.presentEvent]? with
  | none => some (p, none)
  | some event =>
    let present := { p with currentTime := event.timeStamp }
    let sendTime := p.startTime + event.timeStamp + p.stopageTime
    (present.wait timesOfDay).map fun timeOfDay =>
      ({ present with presentEvent := p.presentEvent + 1 },
        some ⟨p.presentEvent, { event with data := clone event.data, timeStamp := sendTime }, timeOfDay⟩)

end PlayerThread

/-- What a call does, if it returns. -/
def step (p : PlayerThread E P) : Call → Option (PlayerThread E P × Option (Publication E P))
  | .start timeOfDay => some (p.start timeOfDay, none)
  | .stop timeOfDay => some (p.stop timeOfDay, none)
  | .seekToTime seconds => some (p.seekToTime seconds, none)
  | .update timesOfDay => p.update clone timesOfDay

/-- Calls that return, one after the other, on the player of a log. -/
structure Run (timeOfDay : ℚ) (log : List (LogEvent E P)) (calls : ℕ → Call) (n : ℕ) where
  players : ℕ → PlayerThread E P
  published : ℕ → Option (Publication E P)
  start : players 0 = .init clone timeOfDay log
  steps : ∀ k < n, step clone (players k) (calls k) = some (players (k + 1), published k)

end

end Tortuga.EventPlayer
