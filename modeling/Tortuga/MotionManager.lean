import Tortuga.Raising
import Mathlib.Data.List.Basic
import Mathlib.Logic.Function.Basic

/-!
The motion manager (`motion/basic.py`): at most one motion in each of three slots, and a queue of
motions that follow. A motion that finishes tells the manager at once, also from within its
`start` or `stop`.
-/
namespace Tortuga.MotionManager
open Tortuga.Raising
set_option linter.unusedSimpArgs false

/-- `_inPlaneMotion`, `_depthMotion` and `_orientationMotion`. -/
inductive Slot where
  | inPlane
  | depth
  | orientation
  deriving DecidableEq, Repr

/-- `Motion.IN_PLANE`, `Motion.DEPTH` and `Motion.ORIENTATION`. -/
def Slot.mask : Slot → ℕ
  | .inPlane => 1
  | .depth => 2
  | .orientation => 4

/-- The order in which the manager goes through its slots. -/
def Slot.all : List Slot := [.inPlane, .depth, .orientation]

/-- What a motion does in its `_start` or `stop` that concerns the manager: it publishes
    `Motion.FINISHED` with itself, or it raises. -/
inductive Act where
  | finish
  | raise
  deriving DecidableEq, Repr

/-- An assertion of the manager fails, or a motion raises. `recursionError` is for calls that nest
    deeper than the queue is long, which never happens. -/
inductive Error where
  | assertionError
  | exception
  | recursionError
  deriving DecidableEq, Repr

/-- The motions there are: their types, and what their functions do. -/
structure Motions (M : Type) where
  type : M → ℕ
  start : M → List Act
  stop : M → List Act

/-- `motion.type & mask`. -/
def Motions.has {M : Type} (D : Motions M) (m : M) (s : Slot) : Bool := (D.type m) &&& s.mask != 0

/-- The manager, and which motions it has started and stopped and been given, in order. -/
structure Manager (M : Type) where
  slots : Slot → Option M
  queuedMotions : List M
  conn : Bool
  started : List M
  stopped : List M
  given : List M

def Manager.initial {M : Type} : Manager M := ⟨fun _ => none, [], true, [], [], []⟩

def Manager.put {M : Type} (t : Manager M) (s : Slot) (m : Option M) : Manager M :=
  { t with slots := Function.update t.slots s m }

abbrev Io (M : Type) := EStateM Error (Manager M)

section
variable {M : Type} [DecidableEq M] (D : Motions M)

/-- A part of `_removeMotion`. -/
def clear (m : M) (s : Slot) : Io M Unit := do
  if D.has m s then do
    let t ← get
    if t.slots s = some m then modify fun t => t.put s none else throw .assertionError
  else pure ()

def removeMotion (m : M) : Io M Unit := do
  clear D m .inPlane
  clear D m .depth
  clear D m .orientation

variable (rec : M → Io M Unit)

/-- The next motion is set, or `MotionManager.FINISHED` is published, on which the manager does not act. -/
def startQueuedMotion : Io M Unit := do
  let t ← get
  match t.queuedMotions with
  | [] => pure ()
  | m :: rest => do
    modify fun t => { t with queuedMotions := rest }
    rec m

def motionFinished (m : M) : Io M Unit := do
  removeMotion D m
  startQueuedMotion rec

/-- `Motion.FINISHED` is published. The manager hears it unless it is in the background no more. -/
def publishFinished (m : M) : Io M Unit := do
  let t ← get
  if t.conn then motionFinished D rec m else pure ()

def acts (m : M) : List Act → Io M Unit
  | [] => pure ()
  | .finish :: rest => do
    publishFinished D rec m
    acts m rest
  | .raise :: _ => throw .exception

/-- `motion.start(...)`. -/
def start (m : M) : Io M Unit := do
  modify fun t => { t with started := t.started ++ [m] }
  acts D rec m (D.start m)

/-- `motion.stop()`. -/
def stop (m : M) : Io M Unit := do
  modify fun t => { t with stopped := t.stopped ++ [m] }
  acts D rec m (D.stop m)

def stopMotion (m : M) : Io M Unit := do
  stop D rec m
  removeMotion D m

/-- The motion of a slot is stopped, if there is one. -/
def evict (s : Slot) : Io M Unit := do
  let t ← get
  match t.slots s with
  | none => pure ()
  | some m => stopMotion D rec m

/-- A part of `_setMotion`. It says whether the motion has been started. -/
def place (m : M) (s : Slot) (started : Bool) : Io M Bool := do
  if D.has m s then do
    evict D rec s
    modify fun t => t.put s (some m)
    if started then pure true
    else do
      start D rec m
      pure true
  else pure started

/-- `_setMotion`. -/
def setMotionNow (m : M) : Io M Unit := do
  let first ← place D rec m .inPlane false
  let second ← place D rec m .depth first
  let _ ← place D rec m .orientation second
  pure ()

end

section
variable {M : Type} [DecidableEq M] (D : Motions M)

/-- `_setMotion` with what is left of the depth to which it may nest: each level takes a motion
    from the queue. -/
def run : ℕ → M → Io M Unit
  | 0, _ => throw .recursionError
  | depth + 1, m => setMotionNow D (run depth) m

/-- `setMotion`, with `_queueMotions`. -/
def setMotion (m : M) (motions : List M) : Io M Unit := do
  modify fun t => { t with queuedMotions := [], given := t.given ++ m :: motions }
  modify fun t => { t with queuedMotions := t.queuedMotions ++ motions }
  run D (motions.length + 1) m

variable (rec : M → Io M Unit)

def stopCurrentMotion : Io M Unit := do
  evict D rec .inPlane
  evict D rec .depth
  evict D rec .orientation
  modify fun t => { t with queuedMotions := [] }

/-- A part of `stopMotionOfType`. -/
def stopSlot (s : Slot) : Io M Unit := do
  let t ← get
  match t.slots s with
  | none => throw .assertionError
  | some m => stopMotion D rec m

def stopMotionOfType (type : ℕ) : Io M Unit :=
  if type &&& Slot.inPlane.mask != 0 then stopSlot D rec .inPlane
  else if type &&& Slot.depth.mask != 0 then stopSlot D rec .depth
  else if type &&& Slot.orientation.mask != 0 then stopSlot D rec .orientation
  else pure ()

/-- A call of a method of the manager, or a motion that finishes. -/
inductive Op (M : Type) where
  | setMotion (m : M) (motions : List M)
  | stopCurrentMotion
  | stopMotionOfType (type : ℕ)
  | finished (m : M)
  | background
  | unbackground

def call : Op M → Io M Unit
  | .setMotion m motions => setMotion D m motions
  | .stopCurrentMotion => do stopCurrentMotion D (run D (← get).queuedMotions.length)
  | .stopMotionOfType type => do stopMotionOfType D (run D (← get).queuedMotions.length) type
  | .finished m => do publishFinished D (run D (← get).queuedMotions.length) m
  | .background => modify fun t => { t with conn := true }
  | .unbackground => modify fun t => { t with conn := false }

/-- The manager after a call, when control is back: by return or by an exception. -/
def next (t : Manager M) (op : Op M) : Manager M := final (call D op t)

end

end Tortuga.MotionManager
