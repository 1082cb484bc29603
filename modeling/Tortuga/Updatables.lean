import Tortuga.Machines
import Mathlib.Logic.Function.Basic

/-!
`Updatable`: an object whose `update` is called by a background thread, which other threads start and
stop (`Updatable.cpp`, `CountDownLatch.cpp`).
-/
namespace Tortuga.Updatables

/-- What a thread does after `cleanUpBackgroundThread`. -/
inductive Call
  | background
  | unbackground
  deriving DecidableEq, Repr

/-- Where a thread is in a call. From `checks` to `joins`, and in `starts`, it holds `m_threadStateMutex`. -/
inductive Place
  | out
  | cleans (call : Call)
  | checks (call : Call)
  | awaits (call : Call)
  | joins (call : Call)
  | creates
  | starts
  deriving DecidableEq, Repr

/-- Where a background thread is in `loop`. -/
inductive Loop
  | reads
  | updates
  | quits
  | ended
  deriving DecidableEq, Repr

/-- `m_backgrounded`, `m_interval`, `m_backgroundThread`, the count of `m_threadStopped`, and who holds
    `m_threadStateMutex`. The background threads are numbered as they are started. -/
structure Updatable (Thread : Type) where
  backgrounded : Bool
  interval : Int
  backgroundThread : Option ℕ
  threadStopped : ℕ
  threadState : Option Thread
  place : Thread → Place
  loops : List Loop

/-- A call is made, up to the end of its section under `m_upStateMutex`, or a thread goes on. -/
inductive Act (Thread : Type)
  | background (thread : Thread) (interval : Int)
  | unbackground (thread : Thread) (join : Bool)
  | advance (thread : Thread)
  | loop (t : ℕ)
  deriving DecidableEq, Repr

section
variable {Thread : Type} [DecidableEq Thread]

namespace Updatable

def put (s : Updatable Thread) (thread : Thread) (place : Place) : Updatable Thread :=
  { s with place := Function.update s.place thread place }

def background (s : Updatable Thread) (thread : Thread) (interval : Int) : Updatable Thread :=
  if s.backgrounded then { s with interval := interval }
  else { s with interval := interval, backgrounded := true }.put thread (.cleans .background)

def unbackground (s : Updatable Thread) (thread : Thread) (join : Bool) : Updatable Thread :=
  if !s.backgrounded && !join then s
  else if join then { s with backgrounded := false }.put thread (.cleans .unbackground)
  else { s with backgrounded := false }

/-- The end of `cleanUpBackgroundThread`. -/
def cleaned (s : Updatable Thread) (thread : Thread) : Call → Updatable Thread
  | .background => { s with threadState := none }.put thread .creates
  | .unbackground => { s with threadState := none }.put thread .out

/-- A thread in a call goes on, if it can. A wait for the latch ends at any time. -/
def advance (s : Updatable Thread) (thread : Thread) : Option (Updatable Thread) :=
  match s.place thread with
  | .out => none
  | .cleans call =>
    if s.threadState = none then some ({ s with threadState := some thread }.put thread (.checks call)) else none
  | .checks call =>
    if s.backgroundThread = none then some (s.cleaned thread call)
    else if s.threadStopped ≠ 0 then some (s.put thread (.awaits call))
    else some ({ s with backgroundThread := none }.cleaned thread call)
  | .awaits call => some (s.put thread (.joins call))
  | .joins call =>
    if (s.backgroundThread.bind fun t => s.loops[t]?) = some .ended then some ({ s with backgroundThread := none }.cleaned thread call)
    else none
  | .creates =>
    if s.threadState = none then
      some ({ s with threadState := some thread, threadStopped := if 0 = s.threadStopped then 1 else s.threadStopped }.put thread .starts)
    else none
  | .starts =>
    some ({ s with backgroundThread := some s.loops.length, loops := s.loops ++ [Loop.reads], threadState := none }.put thread .out)

/-- A background thread goes on. `update` is one step here. -/
def loop (s : Updatable Thread) (t : ℕ) : Option (Updatable Thread) :=
  match s.loops[t]? with
  | some .reads => some { s with loops := s.loops.set t (if s.backgrounded then .updates else .quits) }
  | some .updates => some { s with loops := s.loops.set t .reads }
  | some .quits => some { s with loops := s.loops.set t .ended, threadStopped := s.threadStopped - 1 }
  | some .ended | none => none

end Updatable

/-- A thread makes one call at a time. -/
def step (s : Updatable Thread) : Act Thread → Option (Updatable Thread)
  | .background thread interval => if s.place thread = .out then some (s.background thread interval) else none
  | .unbackground thread join => if s.place thread = .out then some (s.unbackground thread join) else none
  | .advance thread => s.advance thread
  | .loop t => s.loop t

end

/-- No background thread has been started. -/
def start {Thread : Type} : Updatable Thread := ⟨false, 100, none, 1, none, fun _ => .out, []⟩

end Tortuga.Updatables
