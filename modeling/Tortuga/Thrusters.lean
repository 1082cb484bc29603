import Mathlib.Algebra.Field.Basic
import Mathlib.Data.Matrix.Mul
import Mathlib.Data.Fintype.Basic

/-!
The thrusters of the vehicle (`Vehicle.cpp`, `SBThruster.cpp`): where they are and in which direction
they push, and how a force and a torque are given to them.
-/
namespace Tortuga.Thrusters

/-- `Vector3`. -/
@[ext]
structure Vector3 (R : Type) where
  x : R
  y : R
  z : R
  deriving DecidableEq

/-- `thrusters`. -/
inductive Place
  | prt
  | str
  | top
  | fore
  | bot
  | aft
  deriving DecidableEq

instance : Fintype Place where
  elems := {.prt, .str, .top, .fore, .bot, .aft}
  complete p := by cases p <;> decide

/-- `forceAndThrustIndices`. -/
inductive Index
  | fx
  | fy
  | fz
  | tx
  | ty
  | tz
  deriving DecidableEq

instance : Fintype Index where
  elems := {.fx, .fy, .fz, .tx, .ty, .tz}
  complete i := by cases i <;> decide

section
variable {R : Type} [Field R]

namespace Vector3

def crossProduct (a b : Vector3 R) : Vector3 R := ⟨a.y * b.z - a.z * b.y, a.z * b.x - a.x * b.z, a.x * b.y - a.y * b.x⟩

def scale (r : R) (a : Vector3 R) : Vector3 R := ⟨r * a.x, r * a.y, r * a.z⟩

end Vector3

/-! ### A thruster -/

/-- What the configuration says of a thruster. -/
structure Config (R : Type) where
  name : List Char
  address : ℤ
  calibrationFactor : R
  location : Vector3 (Option R)
  direction : Vector3 (Option R)

structure SBThruster (R : Type) where
  address : ℤ
  calibrationFactor : R
  location : Vector3 R
  direction : Vector3 R
  force : R
  motorCount : ℤ

/-- The numbers of the configuration, with defaults. -/
def asDoubles (config : Vector3 (Option R)) (default : Vector3 R) : Vector3 R :=
  ⟨config.x.getD default.x, config.y.getD default.y, config.z.getD default.z⟩

/-- The words that a thruster is known by, with its default location and direction. -/
def offsets : List (List Char × Vector3 R × Vector3 R) :=
  [("Starboard".toList, ⟨-1019 / 10000, 2015 / 10000, -242 / 10000⟩, ⟨-1, 0, 0⟩),
    ("Port".toList, ⟨-1019 / 10000, -1998 / 10000, -242 / 10000⟩, ⟨-1, 0, 0⟩),
    ("Fore".toList, ⟨1498 / 10000, 8 / 10000, -908 / 10000⟩, ⟨0, 0, -1⟩),
    ("Aft".toList, ⟨-4083 / 10000, 8 / 10000, -908 / 10000⟩, ⟨0, 0, -1⟩),
    ("Top".toList, ⟨-921 / 10000, 658 / 10000, -2216 / 10000⟩, ⟨0, 1, 0⟩),
    ("Bottom".toList, ⟨-921 / 10000, -675 / 10000, 1733 / 10000⟩, ⟨0, -1, 0⟩)]

namespace SBThruster

/-- The constructor. The location and the direction go by a word in the name, the first that is found. -/
def create (config : Config R) : SBThruster R :=
  let zero : Vector3 R := ⟨0, 0, 0⟩
  match offsets.find? fun offset => decide (offset.1 <:+: config.name) with
  | some (_, location, direction) =>
    ⟨config.address, config.calibrationFactor, asDoubles config.location location, asDoubles config.direction direction, 0, 0⟩
  | none => ⟨config.address, config.calibrationFactor, zero, zero, 0, 0⟩

/-- `truncate` is the conversion of a double to an int. -/
def setForce (truncate : R → ℤ) (t : SBThruster R) (force : R) : SBThruster R :=
  let motorCount := truncate ((force / t.calibrationFactor - 0) * 1023 / 1)
  { t with
    force := force
    motorCount := if motorCount > 1024 then 1023 else if motorCount < -1024 then -1023 else motorCount }

end SBThruster

/-! ### The vehicle -/

/-- The devices that were found, what is configured of the extra thruster, and the matrix once it has been made. -/
structure Vehicle (R : Type) where
  devices : Place → Option (SBThruster R)
  extraLocation : Vector3 R
  extraDirection : Vector3 R
  force : R
  extraThrustOn : Bool
  controlSignalToThrusterForces : Option (Matrix Place Index R)

/-- The matrix that maps thruster forces to the force and the torque. -/
def thrusterMatrix (tl td : Place → Vector3 R) : Matrix Index Place R
  | .fx, p => if p = .prt ∨ p = .str then 1 else 0
  | .fy, p => if p = .top ∨ p = .bot then 1 else 0
  | .fz, p => if p = .fore ∨ p = .aft then 1 else 0
  | .tx, p => ((tl p).crossProduct (td p)).x
  | .ty, p => ((tl p).crossProduct (td p)).y
  | .tz, p => ((tl p).crossProduct (td p)).z

def controlSignal (translationalForces rotationalTorques : Vector3 R) : Index → R
  | .fx => translationalForces.x
  | .fy => translationalForces.y
  | .fz => translationalForces.z
  | .tx => rotationalTorques.x
  | .ty => rotationalTorques.y
  | .tz => rotationalTorques.z

namespace Vehicle

/-- `lookupThrusterDevices`: all thrusters, if there are all of them. -/
def thrusters (v : Vehicle R) : Option (Place → SBThruster R) :=
  if all : ∀ p, (v.devices p).isSome then some fun p => (v.devices p).get (all p) else none

/-- What is taken off for the extra thruster. -/
def extraThruster (v : Vehicle R) : Index → R :=
  if v.extraThrustOn then
    controlSignal (v.extraDirection.scale v.force) ((v.extraDirection.scale v.force).crossProduct v.extraLocation)
  else fun _ => 0

def setExtraThruster (v : Vehicle R) (speed : ℤ) : Vehicle R := { v with extraThrustOn := decide (speed ≠ 0) }

/-- Each thruster is given its force. `inverse` is the inversion of a matrix. -/
def applyForcesAndTorques (inverse : Matrix Index Place R → Matrix Place Index R) (truncate : R → ℤ) (v : Vehicle R)
    (translationalForces rotationalTorques : Vector3 R) : Vehicle R :=
  match v.thrusters with
  | none => v
  | some ts =>
    let matrix := v.controlSignalToThrusterForces.getD
      (inverse (thrusterMatrix (fun p => (ts p).location) fun p => (ts p).direction))
    let forces := matrix.mulVec fun i => controlSignal translationalForces rotationalTorques i - v.extraThruster i
    { v with
      controlSignalToThrusterForces := some matrix
      devices := fun p => some ((ts p).setForce truncate (forces p)) }

end Vehicle

/-- A call of the vehicle. -/
inductive Call (R : Type)
  | setExtraThruster (speed : ℤ)
  | applyForcesAndTorques (translationalForces rotationalTorques : Vector3 R)

def next (inverse : Matrix Index Place R → Matrix Place Index R) (truncate : R → ℤ) (v : Vehicle R) : Call R → Vehicle R
  | .setExtraThruster speed => v.setExtraThruster speed
  | .applyForcesAndTorques force torque => v.applyForcesAndTorques inverse truncate force torque

end

end Tortuga.Thrusters
