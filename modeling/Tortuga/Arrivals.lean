import Tortuga.Orientations
import Tortuga.Rereads
import Mathlib.Algebra.Order.Ring.Rat
import Mathlib.Tactic.NormNum

/-!
The events of a controller that has arrived (`ControllerBase.cpp`, `DesiredState.cpp`), in exact
arithmetic. A handler holds `m_mutex`, which neither those who set the desired values nor the estimator
take: each of its reads of a value takes that value's lock on its own.
-/
namespace Tortuga.Arrivals
open Tortuga.Geometry Tortuga.Orientations Tortuga.Rereads

/-- What a controller is to arrive at. -/
inductive Kind
  | depth
  | position
  | velocity
  | orientation
  deriving DecidableEq

abbrev Quantity (K : Type) : Kind → Type
  | .depth => K
  | .position => Vector2 K
  | .velocity => Vector2 K
  | .orientation => Geometry.Quaternion K

/-- The thresholds, and which of its two arguments `atOrientation` evaluates first, which the language leaves open. -/
structure ControllerBase (K : Type) where
  depthThreshold : K
  orientationThreshold : K
  velocityThreshold : K
  positionThreshold : K
  desiredFirst : Bool

variable {K : Type} [Field K] [LinearOrder K] (sqrt : K → K) (c : ControllerBase K)

namespace ControllerBase

def atDepth (currentDepth desiredDepth : K) : Bool := |currentDepth - desiredDepth| ≤ c.depthThreshold

def atPosition (currentPosition desiredPosition : Vector2 K) : Bool :=
  |currentPosition.x - desiredPosition.x| ≤ c.positionThreshold && |currentPosition.y - desiredPosition.y| ≤ c.positionThreshold

def atVelocity (currentVelocity desiredVelocity : Vector2 K) : Bool :=
  |currentVelocity.x - desiredVelocity.x| ≤ c.velocityThreshold && |currentVelocity.y - desiredVelocity.y| ≤ c.velocityThreshold

def atOrientation (currentOrientation desiredOrientation : Geometry.Quaternion K) : Bool :=
  let error := errorQuaternion sqrt desiredOrientation currentOrientation
  if c.orientationThreshold < sqrt (error.x * error.x + error.y * error.y + error.z * error.z) then false else true

/-- The handlers differ in the test, and `setDesiredOrientation` normalises what it stores. -/
def watch : Watch Kind (Quantity K) where
  isAt
    | .depth => c.atDepth
    | .position => c.atPosition
    | .velocity => c.atVelocity
    | .orientation => c.atOrientation sqrt
  store
    | .depth => id
    | .position => id
    | .velocity => id
    | .orientation => normalise sqrt
  desiredFirst kind := kind = .orientation && c.desiredFirst

end ControllerBase

/-- A setter holds the lock of `DesiredState` while it stores. -/
def setDesiredDepth (depth : K) : Turn Kind (Quantity K) := .desire .depth depth

def setDesiredPosition (position : Vector2 K) : Turn Kind (Quantity K) := .desire .position position

def setDesiredVelocity (velocity : Vector2 K) : Turn Kind (Quantity K) := .desire .velocity velocity

def setDesiredOrientation (orientation : Geometry.Quaternion K) : Turn Kind (Quantity K) := .desire .orientation orientation

/-- A call of a handler: its steps are those of `State.step`, with the test of its kind. -/
def atDepthUpdate : Turn Kind (Quantity K) := .call .depth

def atPositionUpdate : Turn Kind (Quantity K) := .call .position

def atVelocityUpdate : Turn Kind (Quantity K) := .call .velocity

def atOrientationUpdate : Turn Kind (Quantity K) := .call .orientation

/-- The events of the handlers under any interleaving: all tell the truth, and between two of a kind the vehicle was away, if and only if
each desired value that is set between the two reads of a handler, and that its second read finds, is one that the vehicle is at. -/
theorem arrivals_truthful (desired estimated : (kind : Kind) → Quantity K kind) (turns : List (Turn Kind (Quantity K))) :
    Truthful (c.watch sqrt) (run (c.watch sqrt) (start desired estimated) turns).log ∧
        Separated (run (c.watch sqrt) (start desired estimated) turns).log ↔
      Fitting (c.watch sqrt) (start desired estimated) turns := by
  rw [truthful_run]
  exact and_iff_left (flagged_run desired estimated turns).separated

/-- A depth that is set between the test and the event. -/
theorem arrivals_wrong :
    let c : ControllerBase ℚ := ⟨1 / 2, 3 / 100, 1 / 10, 1 / 2, true⟩
    let origin : (kind : Kind) → Quantity ℚ kind
      | .depth => 0
      | .position => ⟨0, 0⟩
      | .velocity => ⟨0, 0⟩
      | .orientation => ⟨0, 0, 0, 1⟩
    let log := (run (c.watch id) (start origin origin) [atDepthUpdate, .step, .step, setDesiredDepth 100, .step]).log
    ¬ (Truthful (c.watch id) log ∧ Separated log) := by
  intro c origin log ⟨truthful, _⟩
  have message : log = [.arrival .depth (100 : ℚ) [(0 : ℚ)]] := by
    simp [log, c, origin, run, next, start, State.step, State.test, ControllerBase.watch, ControllerBase.atDepth, atDepthUpdate,
      setDesiredDepth]
  obtain ⟨e, member, near⟩ := truthful .depth (100 : ℚ) [(0 : ℚ)] (by rw [message]; exact List.mem_cons_self)
  obtain rfl := List.mem_singleton.mp member
  have apart : ¬ |(0 : ℚ) - 100| ≤ 1 / 2 := by norm_num
  exact apart (of_decide_eq_true near)

end Tortuga.Arrivals
