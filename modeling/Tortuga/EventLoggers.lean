import Tortuga.Machines
import Tortuga.Updatables
import Tortuga.LoggedEvents

/-!
`EventLogger`: the threads that publish events put them into a queue, and a background thread writes them to a log, as does the
destructor in the end. One thread starts and stops the background threads and destroys the object.
-/
namespace Tortuga.EventLoggers
open Tortuga.Updatables
open Tortuga.LoggedEvents

/-- How far the destructor has come: the connection is there before it, and the queue and the archive are gone at its end. -/
inductive Life
  | alive
  | flushes
  | closed
  deriving DecidableEq

/-- Who takes events off the queue: `update` in a background thread, or the destructor. -/
inductive Writer
  | update (t : ℕ)
  | destructor
  deriving DecidableEq

/-- `called` is the event with which a publisher is in `queueEvent`, and `event` what a writer has taken off the queue and is to write.
    `misused` says that the queue or the archive has been used when it was gone. -/
structure EventLogger (Publisher D F P I R S : Type) where
  updatable : Updatable Unit
  eventQueue : List (AnyEvent D F P I R S)
  archive : List (Datum D F)
  called : Publisher → Option (AnyEvent D F P I R S)
  event : Writer → Option (AnyEvent D F P I R S)
  life : Life
  misused : Bool
  pushed : List (AnyEvent D F P I R S)

/-- What a thread does next. `memory` is what the clone of an event finds. -/
inductive Act (Publisher D F P I R S : Type)
  | publish (publisher : Publisher) (event : AnyEvent D F P I R S)
  | queueEvent (publisher : Publisher)
  | background (interval : Int)
  | unbackground (join : Bool)
  | advance
  | loop (t : ℕ)
  | writeEvent (writer : Writer) (memory : Memory D F R S)
  | destroy
  | flush

section
variable {Publisher D F P I R S : Type} [DecidableEq Publisher] [Zero D] (r : Registry P)

namespace EventLogger

/-- `popNoWait` finds an event. -/
def pop (s : EventLogger Publisher D F P I R S) (writer : Writer) (event : AnyEvent D F P I R S) (rest : List (AnyEvent D F P I R S)) :
    EventLogger Publisher D F P I R S :=
  { s with eventQueue := rest, event := Function.update s.event writer (some event) }

/-- A publisher is in `queueEvent`. -/
def queueEvent (s : EventLogger Publisher D F P I R S) (publisher : Publisher) : Option (EventLogger Publisher D F P I R S) :=
  match s.called publisher with
  | none => none
  | some event =>
    let s := { s with called := Function.update s.called publisher none }
    if s.life = .closed then some { s with misused := true }
    else some { s with eventQueue := s.eventQueue ++ [event], pushed := s.pushed ++ [event] }

/-- A background thread goes on; in `update` it looks for an event. -/
def loop (s : EventLogger Publisher D F P I R S) (t : ℕ) : Option (EventLogger Publisher D F P I R S) :=
  if s.updatable.loops[t]? = some .updates then
    match s.event (.update t), s.life, s.eventQueue with
    | some _, _, _ => none
    | none, .closed, _ => some { s with misused := true }
    | none, _, [] => (s.updatable.loop t).map fun updatable => { s with updatable := updatable }
    | none, _, event :: rest => some (s.pop (.update t) event rest)
  else (s.updatable.loop t).map fun updatable => { s with updatable := updatable }

/-- A writer has an event. -/
def writeEvent (s : EventLogger Publisher D F P I R S) (writer : Writer) (memory : Memory D F R S) :
    Option (EventLogger Publisher D F P I R S) :=
  match s.event writer with
  | none => none
  | some event =>
    let s := { s with event := Function.update s.event writer none }
    if s.life = .closed then some { s with misused := true }
    else some { s with archive := (LoggedEvents.writeEvent r memory s.archive event).2 }

/-- The destructor looks for an event. When there is none it closes the log, and the destructor of `Updatable` follows. -/
def flush (s : EventLogger Publisher D F P I R S) : Option (EventLogger Publisher D F P I R S) :=
  match s.life, s.event .destructor, s.eventQueue with
  | .flushes, none, [] => some { s with life := .closed, updatable := s.updatable.put () (.cleans .unbackground) }
  | .flushes, none, event :: rest => some (s.pop .destructor event rest)
  | _, _, _ => none

end EventLogger

open EventLogger

def step (s : EventLogger Publisher D F P I R S) : Act Publisher D F P I R S → Option (EventLogger Publisher D F P I R S)
  | .publish publisher event =>
    if s.life = .alive ∧ (s.called publisher).isNone then some { s with called := Function.update s.called publisher (some event) } else none
  | .queueEvent publisher => s.queueEvent publisher
  | .background interval =>
    if s.life = .alive then (Updatables.step s.updatable (.background () interval)).map fun updatable => { s with updatable := updatable }
    else none
  | .unbackground join =>
    if s.life = .alive then (Updatables.step s.updatable (.unbackground () join)).map fun updatable => { s with updatable := updatable }
    else none
  | .advance => (Updatables.step s.updatable (.advance ())).map fun updatable => { s with updatable := updatable }
  | .loop t => s.loop t
  | .writeEvent writer memory => s.writeEvent r writer memory
  | .destroy => if s.life = .alive ∧ s.updatable.place () = .out then some { s with life := .flushes } else none
  | .flush => s.flush

end

/-- No event has been published. -/
def start {Publisher D F P I R S : Type} : EventLogger Publisher D F P I R S :=
  ⟨Updatables.start, [], [], fun _ => none, fun _ => none, .alive, false, []⟩

/-- `PlayerThread::init`: events are read up to the end of the log. `memories` is what the new objects find, of which there are enough. -/
def readEvents {D F P I R S : Type} [Zero D] (r : Registry P) :
    List (Memory D F R S) → List (Datum D F) → Option (List (AnyEvent D F P I R S))
  | _, [] => some []
  | [], _ :: _ => none
  | memory :: memories, datum :: log =>
    (readEvent r memory (datum :: log)).bind fun read => (readEvents r memories read.2).map fun events => read.1 :: events

end Tortuga.EventLoggers
