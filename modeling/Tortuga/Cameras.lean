import Tortuga.Geometry

/-!
The camera of the vehicle (`world2img` and `img2world` of `Helpers.cpp`), in exact arithmetic: from
a place in the world to one in the image, and back.
-/
namespace Tortuga.Cameras
open Tortuga.Geometry
open Tortuga.Thrusters (Vector3)

/-- What a step can fail of: a division by zero, or an assertion. -/
inductive Failure
  | division
  | likelihoodsSumToZero
  | tryingToDivideByZero
  | scalarNotZero
  deriving DecidableEq

variable {K : Type} [Field K] [DecidableEq K]

def divide (a b : K) : Except Failure K := if b = 0 then .error .division else .ok (a / b)

theorem divide_of_ne {b : K} (nonzero : b ≠ 0) (a : K) : divide a b = .ok (a / b) := if_neg nonzero

def world2img (coords_w cameraPosition : Vector3 K) (cameraOrientation : Geometry.Quaternion K) (intrinsicParameters : Matrix3 K) :
    Except Failure (Vector3 K) := do
  let r := cameraOrientation.rotate (coords_w - cameraPosition)
  let u := intrinsicParameters.apply r
  let x ← divide u.x u.z
  let y ← divide u.y u.z
  return ⟨x, y, u.z⟩

def img2world (coords_i cameraPosition : Vector3 K) (cameraOrientation : Geometry.Quaternion K) (invIntrinsicParameters : Matrix3 K) :
    Vector3 K :=
  let u : Vector3 K := ⟨coords_i.x, coords_i.y, 1⟩
  let r := invIntrinsicParameters.apply u
  (cameraOrientation.unitInverse.rotate r).scale coords_i.z + cameraPosition

variable {coords_w coords_i cameraPosition : Vector3 K} {cameraOrientation : Geometry.Quaternion K} {m n : Matrix3 K}

theorem world2img_beside (beside : (m.apply (cameraOrientation.rotate (coords_w - cameraPosition))).z = 0) :
    world2img coords_w cameraPosition cameraOrientation m = .error .division := by
  rw [world2img, divide, if_pos beside]
  rfl

/-- A place that is not beside the camera has image coordinates. -/
theorem world2img_exists (deep : (m.apply (cameraOrientation.rotate (coords_w - cameraPosition))).z ≠ 0) :
    ∃ coords_i, world2img coords_w cameraPosition cameraOrientation m = .ok coords_i := by
  rw [world2img, divide_of_ne deep, divide_of_ne deep]
  exact ⟨_, rfl⟩

/-- The image coordinates, in units of the depth, are what the camera matrix makes of the place. -/
theorem scale_projected (projected : world2img coords_w cameraPosition cameraOrientation m = .ok coords_i) :
    Vector3.scale coords_i.z ⟨coords_i.x, coords_i.y, 1⟩ = m.apply (cameraOrientation.rotate (coords_w - cameraPosition)) := by
  by_cases deep : (m.apply (cameraOrientation.rotate (coords_w - cameraPosition))).z = 0
  · rw [world2img_beside deep] at projected
    cases projected
  · rw [world2img, divide_of_ne deep, divide_of_ne deep] at projected
    cases projected
    ext
    · exact mul_div_cancel₀ _ deep
    · exact mul_div_cancel₀ _ deep
    · exact mul_one _

/-- The way back is the right one for a place that the two matrices together leave as it is. -/
theorem img2world_eq_iff (unit : cameraOrientation.norm = 1)
    (projected : world2img coords_w cameraPosition cameraOrientation m = .ok coords_i) :
    img2world coords_i cameraPosition cameraOrientation n = coords_w ↔
      Matrix3.apply (n * m) (cameraOrientation.rotate (coords_w - cameraPosition)) =
        cameraOrientation.rotate (coords_w - cameraPosition) := by
  rw [img2world, ← Quaternion.rotate_scale, ← Matrix3.apply_scale, scale_projected projected, ← Matrix3.apply_mul, add_eq_iff]
  constructor
  · intro back
    have turned := congrArg cameraOrientation.rotate back
    rwa [Quaternion.rotate_unitInverse unit] at turned
  · intro fixed
    rw [fixed, Quaternion.unitInverse_rotate unit]

/-- The inverse matrix finds the place again. -/
theorem img2world_inverse (unit : cameraOrientation.norm = 1) (inverse : n * m = 1)
    (projected : world2img coords_w cameraPosition cameraOrientation m = .ok coords_i) :
    img2world coords_i cameraPosition cameraOrientation n = coords_w := by
  rw [img2world_eq_iff unit projected, inverse, Matrix3.apply_one]

end Tortuga.Cameras
