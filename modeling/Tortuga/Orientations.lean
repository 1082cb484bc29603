import Tortuga.Geometry
import Mathlib.Algebra.Order.Field.Basic
import Mathlib.LinearAlgebra.Matrix.Notation

/-!
Orientations of the vehicle (`Utility.cpp` of the estimation, and what is used of `Quaternion.cpp`), in
exact arithmetic. `sqrt` is the square root; a quotient by zero is zero.
-/
namespace Tortuga.Orientations
open scoped Tortuga.Numerals
open Tortuga.Geometry
open Tortuga.Thrusters (Vector3)

variable {K : Type} [Field K] [LinearOrder K] (sqrt : K → K)

/-- `normalise` of a vector: very short vectors stay as they are. -/
def normaliseVector (v : Vector3 K) : Vector3 K :=
  let fLength := sqrt (v.x * v.x + v.y * v.y + v.z * v.z)
  if 1e-08 < fLength then v.scale (1 / fLength) else v

/-- `normalise` of a quaternion. -/
def normalise (q : Geometry.Quaternion K) : Geometry.Quaternion K :=
  let factor := 1 / sqrt q.norm
  ⟨factor * q.x, factor * q.y, factor * q.z, factor * q.w⟩

def errorQuaternion (self q : Geometry.Quaternion K) : Geometry.Quaternion K :=
  let self := normalise sqrt self
  let q := normalise sqrt q
  { x := q.w * self.x + q.z * self.y - q.y * self.z - q.x * self.w
    y := -(q.z * self.x) + q.w * self.y + q.x * self.z - q.y * self.w
    z := q.y * self.x - q.x * self.y + q.w * self.z - q.z * self.w
    w := q.x * self.x + q.y * self.y + q.z * self.z + q.w * self.w }

/-- The change of a quaternion under an angular rate. -/
def derivative (q : Geometry.Quaternion K) (velocity : Vector3 K) : Geometry.Quaternion K where
  x := 1 / 2 * q.w * velocity.x + 1 / 2 * -q.z * velocity.y + 1 / 2 * q.y * velocity.z
  y := 1 / 2 * q.z * velocity.x + 1 / 2 * q.w * velocity.y + 1 / 2 * -q.x * velocity.z
  z := 1 / 2 * -q.y * velocity.x + 1 / 2 * q.x * velocity.y + 1 / 2 * q.w * velocity.z
  w := 1 / 2 * -q.x * velocity.x + 1 / 2 * -q.y * velocity.y + 1 / 2 * -q.z * velocity.z

def fromDirectionCosineMatrix (nCb : Matrix3 K) : Geometry.Quaternion K :=
  let d := 1 / 2 * sqrt (nCb 0 0 + nCb 1 1 + nCb 2 2 + 1)
  if 0.125 ≤ |d| then
    ⟨1 / 4 * (nCb 2 1 - nCb 1 2) / d, 1 / 4 * (nCb 0 2 - nCb 2 0) / d, 1 / 4 * (nCb 1 0 - nCb 0 1) / d, d⟩
  else
    let c := 1 / 2 * sqrt (-nCb 0 0 - nCb 1 1 + nCb 2 2 + 1)
    if 0.125 ≤ |c| then
      ⟨1 / 4 * (nCb 0 2 - nCb 2 0) / c, 1 / 4 * (nCb 1 2 + nCb 2 1) / c, c, 1 / 4 * (nCb 1 0 - nCb 0 1) / c⟩
    else
      let b := 1 / 2 * sqrt (-nCb 0 0 + nCb 1 1 - nCb 2 2 + 1)
      if 0.125 ≤ |b| then
        ⟨1 / 4 * (nCb 0 1 + nCb 1 0) / b, b, 1 / 4 * (nCb 1 2 + nCb 2 1) / b, 1 / 4 * (nCb 0 2 - nCb 2 0) / b⟩
      else
        let a := 1 / 2 * sqrt (nCb 0 0 - nCb 1 1 - nCb 2 2 + 1)
        ⟨a, 1 / 4 * (nCb 0 1 + nCb 1 0) / a, 1 / 4 * (nCb 0 2 - nCb 2 0) / a, 1 / 4 * (nCb 2 1 - nCb 1 2) / a⟩

def quaternionFromMagAccel (mag accel : Vector3 K) : Geometry.Quaternion K :=
  let n3 := normaliseVector sqrt (accel.scale (-1))
  let n2 := normaliseVector sqrt ((normaliseVector sqrt mag).crossProduct accel)
  let n1 := normaliseVector sqrt (n2.crossProduct n3)
  fromDirectionCosineMatrix sqrt !![n1.x, n1.y, n1.z; n2.x, n2.y, n2.z; n3.x, n3.y, n3.z]

def quaternionFromRate (quatOld : Geometry.Quaternion K) (angRate : Vector3 K) (deltaT : K) : Geometry.Quaternion K :=
  let qDot := derivative quatOld angRate
  normalise sqrt ⟨quatOld.x + qDot.x * deltaT, quatOld.y + qDot.y * deltaT, quatOld.z + qDot.z * deltaT, quatOld.w + qDot.w * deltaT⟩

end Tortuga.Orientations
