import Tortuga.Updatables
import Mathlib.Data.Finset.Card
import Mathlib.Data.Finset.Insert

/-!
`VisionRunner`: detectors that get the images of a camera from a background thread. Changes to them
are queued, and the queue is drained by the background thread or by the one who makes a change
(`VisionRunner.cpp`, `Recorder.cpp`).
-/
namespace Tortuga.VisionRunners
open Tortuga.Updatables

/-- `DetectorChange`. -/
inductive Change (D : Type)
  | add (detector : D)
  | remove (detector : D)
  | removeAll
  deriving DecidableEq, Repr

/-- Those who call a runner, and its own background threads. -/
inductive Agent (Caller : Type)
  | caller (c : Caller)
  | runner (t : ℕ)
  deriving DecidableEq, Repr

/-- From where `processDetectorChanges` is called: `addDetector`, `removeDetector` and `removeAllDetectors`, `update`, or
    `recordFrame` within it. `toggle` is the `toggleBackground` of `update`. -/
inductive Origin
  | change
  | update
  | frame (toggle : Bool)
  deriving DecidableEq, Repr

/-- What an agent does next. The size is the `startSize` of `processDetectorChanges`. -/
inductive Position (D : Type)
  | out
  | asks (join : Bool)
  | sizes (origin : Origin)
  | pops (origin : Origin) (startSize : ℕ)
  | applies (origin : Origin) (startSize : ℕ) (change : Change D)
  | compares (origin : Origin) (startSize : ℕ)
  | backgrounds (origin : Origin)
  | unbackgrounds (origin : Origin)
  | waits (origin : Origin)
  | records (toggle : Bool)
  | delivers (toggle : Bool)
  | toggles (toggle : Bool)
  | stops
  deriving DecidableEq, Repr

structure VisionRunner (Caller D : Type) where
  updatable : Updatable (Agent Caller)
  detectorChanges : List (Change D)
  detectors : Finset D
  position : Agent Caller → Position D

/-- A caller makes a change, an agent goes on, or a background thread goes on in its loop. Whether there is a new frame
    is up to the camera. -/
inductive Act (Caller D : Type)
  | change (c : Caller) (change : Change D) (join : Bool)
  | proceed (agent : Agent Caller) (newFrame : Bool)
  | loop (t : ℕ)
  deriving DecidableEq, Repr

section
variable {Caller D : Type}

def addDetector (c : Caller) (detector : D) : Act Caller D := .change c (.add detector) false

def removeDetector (c : Caller) (detector : D) (join : Bool) : Act Caller D := .change c (.remove detector) join

def removeAllDetectors (c : Caller) (join : Bool) : Act Caller D := .change c .removeAll join

/-- `update` does not let `processDetectorChanges` change whether the runner is in the background. -/
def Origin.canBackground : Origin → Bool
  | .update => false
  | .change | .frame _ => true

/-- What comes after `processDetectorChanges`. -/
def Origin.next : Origin → Bool → Position D
  | .change, _ => .out
  | .update, result => .records result
  | .frame toggle, result => if result then .toggles toggle else .delivers toggle

variable [DecidableEq D]

def Change.apply : Change D → Finset D → Finset D
  | .add detector, detectors => if detector ∈ detectors then detectors else insert detector detectors
  | .remove detector, detectors => if detector ∈ detectors then detectors.erase detector else detectors
  | .removeAll, _ => ∅

variable [DecidableEq Caller]

namespace VisionRunner

def put (s : VisionRunner Caller D) (agent : Agent Caller) (position : Position D) : VisionRunner Caller D :=
  { s with position := Function.update s.position agent position }

/-- Where `processDetectorChanges` goes when the queue is empty. -/
def compared (s : VisionRunner Caller D) (origin : Origin) (startSize : ℕ) : Position D :=
  if 0 = startSize ∧ s.detectors.card > 0 then if origin.canBackground then .backgrounds origin else origin.next true
  else if startSize > 0 ∧ 0 = s.detectors.card then if origin.canBackground then .unbackgrounds origin else origin.next true
  else origin.next false

/-- The next step of an agent. An image is handed to all detectors in one step. -/
def proceed (s : VisionRunner Caller D) (agent : Agent Caller) (newFrame : Bool) : Option (VisionRunner Caller D) :=
  match s.position agent with
  | .out => none
  | .asks join => some (s.put agent (if !s.updatable.backgrounded || join then .sizes .change else .out))
  | .sizes origin => some (s.put agent (.pops origin s.detectors.card))
  | .pops origin startSize =>
    match s.detectorChanges with
    | [] => some (s.put agent (.compares origin startSize))
    | change :: rest => some ({ s with detectorChanges := rest }.put agent (.applies origin startSize change))
  | .applies origin startSize change => some ({ s with detectors := change.apply s.detectors }.put agent (.pops origin startSize))
  | .compares origin startSize => some (s.put agent (s.compared origin startSize))
  | .backgrounds origin => some ({ s with updatable := s.updatable.background agent (-1) }.put agent (.waits origin))
  | .unbackgrounds origin => some ({ s with updatable := s.updatable.unbackground agent true }.put agent (.waits origin))
  | .waits origin =>
    if s.updatable.place agent = .out then some (s.put agent (origin.next true))
    else (s.updatable.advance agent).map fun updatable => { s with updatable := updatable }
  | .records toggle => some (s.put agent (if newFrame then .sizes (.frame toggle) else .toggles toggle))
  | .delivers toggle => some (s.put agent (.toggles toggle))
  | .toggles toggle =>
    some (s.put agent (if toggle then if s.updatable.backgrounded then .stops else .backgrounds .change else .out))
  | .stops => some ({ s with updatable := s.updatable.unbackground agent false }.put agent .out)

/-- A background thread calls `update` when it has read that it is to go on, and goes on when that has come back. -/
def loop (s : VisionRunner Caller D) (t : ℕ) : Option (VisionRunner Caller D) :=
  if s.position (.runner t) = .out then
    (s.updatable.loop t).map fun updatable =>
      if updatable.loops[t]? = some .updates then { s with updatable := updatable }.put (.runner t) (.sizes .update)
      else { s with updatable := updatable }
  else none

end VisionRunner

def step (s : VisionRunner Caller D) : Act Caller D → Option (VisionRunner Caller D)
  | .change c change join =>
    if s.position (.caller c) = .out then
      some ({ s with detectorChanges := s.detectorChanges ++ [change] }.put (.caller c) (.asks join))
    else none
  | .proceed agent newFrame => s.proceed agent newFrame
  | .loop t => s.loop t

end

def start {Caller D : Type} : VisionRunner Caller D := ⟨Updatables.start, [], ∅, fun _ => .out⟩

end Tortuga.VisionRunners
