import Tortuga.Cameras
import Tortuga.SlidingWindows
import Mathlib.LinearAlgebra.Matrix.Notation
import Mathlib.Tactic.NormNum

/-!
Where the buoys are: `SimpleBuoyEstimationModule.cpp` and `ParticleBuoyEstimationModule.cpp`, in exact
arithmetic. `tan` is the tangent; `samples` are the draws of the three normal distributions around a
measurement, and `likelihood3D` is the likelihood of a place in the image.
-/
namespace Tortuga.BuoyEstimation
open scoped Tortuga.Numerals
open Tortuga.Geometry Tortuga.Cameras Tortuga.SlidingWindows
open Tortuga.Thrusters (Vector3)

inductive ObstacleType
  | redBuoy
  | yellowBuoy
  | greenBuoy
  | loversLane
  | largeHeart
  | smallHeart
  | largeX
  | smallX
  | largeO
  | smallO
  | pinger
  deriving DecidableEq

inductive ColorType
  | red
  | orange
  | yellow
  | green
  | blue
  | unknown
  deriving DecidableEq

structure BuoyEvent (K : Type) where
  x : K
  y : K
  range : K
  color : ColorType
  touchingEdge : Bool

inductive Event (K : Type)
  | buoy (buoyEvent : BuoyEvent K)
  /-- An event that the cast fails on. -/
  | other

structure ObstacleEvent (K : Type) where
  obstacle : ObstacleType
  location : Vector3 K
  covariance : Matrix3 K

/-- What the modules read and set of `EstimatedState`: the pose of the vehicle, and the obstacle of the module, which is added before
    the module is made. -/
structure EstimatedState (K : Type) where
  position : Vector2 K
  depth : K
  orientation : Geometry.Quaternion K
  obstacleLocation : Vector3 K
  obstacleCovariance : Matrix3 K

/-- What the vision system says of the front camera, the angles in radians. -/
structure FrontCamera (K : Type) where
  xFOV : K
  yFOV : K
  camWidth : K
  camHeight : K

section
variable {K : Type} [Field K]

def EstimatedState.cameraLocation (s : EstimatedState K) : Vector3 K := ⟨s.position.x, s.position.y, s.depth⟩

/-- The camera matrix of both constructors. -/
def FrontCamera.intrinsicParameters (tan : K → K) (camera : FrontCamera K) : Matrix3 K :=
  let cameraFocalX := camera.camWidth / tan (camera.xFOV / 2)
  let cameraFocalY := camera.camHeight / tan (camera.yFOV / 2)
  !![cameraFocalX, 0, 0; 0, cameraFocalY, 0; 0, 0, 1]

/-- A place as the camera sees it. -/
def EstimatedState.inCamera (s : EstimatedState K) (coords_w : Vector3 K) : Vector3 K := s.orientation.rotate (coords_w - s.cameraLocation)

/-- In each direction the place is straight before the camera, or the focal length is one or minus one. -/
def Focused (tan : K → K) (camera : FrontCamera K) (r : Vector3 K) : Prop :=
  (r.x = 0 ∨ (camera.camWidth / tan (camera.xFOV / 2)) ^ 2 = 1) ∧ (r.y = 0 ∨ (camera.camHeight / tan (camera.yFOV / 2)) ^ 2 = 1)

section
variable {tan : K → K} {camera : FrontCamera K}

theorem intrinsicParameters_apply (r : Vector3 K) : (camera.intrinsicParameters tan).apply r =
    ⟨camera.camWidth / tan (camera.xFOV / 2) * r.x, camera.camHeight / tan (camera.yFOV / 2) * r.y, r.z⟩ := by
  ext <;> simp [FrontCamera.intrinsicParameters, Matrix3.apply]

/-- The camera matrix, taken twice, leaves only such a place where it is. -/
theorem intrinsicParameters_twice (r : Vector3 K) :
    Matrix3.apply (camera.intrinsicParameters tan * camera.intrinsicParameters tan) r = r ↔ Focused tan camera r := by
  have axis (focal v : K) : focal * (focal * v) = v ↔ v = 0 ∨ focal ^ 2 = 1 := by
    rw [← mul_assoc, ← sq]
    constructor
    · intro same
      have product : (focal ^ 2 - 1) * v = 0 := by
        linear_combination same
      rcases mul_eq_zero.mp product with one | zero
      · exact .inr (sub_eq_zero.mp one)
      · exact .inl zero
    · rintro (rfl | one)
      · exact mul_zero _
      · rw [one, one_mul]
  rw [Matrix3.apply_mul, intrinsicParameters_apply, intrinsicParameters_apply, Vector3.ext_iff, Focused, axis, axis, and_iff_left rfl]

end

variable [DecidableEq K]

/-! ### The mean and the spread of points -/

/-- The mean of each coordinate. -/
def mean (points : List (Vector3 K)) : Except Failure (Vector3 K) := do
  let n : K := points.length
  let x ← divide (points.map Vector3.x).sum n
  let y ← divide (points.map Vector3.y).sum n
  let z ← divide (points.map Vector3.z).sum n
  return ⟨x, y, z⟩

def coordinate (v : Vector3 K) : Fin 3 → K := ![v.x, v.y, v.z]

/-- `getCovariance` of both modules. -/
def getCovariance (points : List (Vector3 K)) : Except Failure (Matrix3 K) :=
  let n : K := points.length
  if n = 0 then
    .error .scalarNotZero
  else
    let expValues := (points.foldl (· + ·) (⟨0, 0, 0⟩ : Vector3 K)).scale (1 / n)
    .ok fun x y => (points.map fun point =>
      (coordinate point x - coordinate expValues x) * (coordinate point y - coordinate expValues y) / n).sum

/-! ### `SimpleBuoyEstimationModule` -/

/-- What the constructor sets, and nothing afterwards. The constructor has locals of the names `m_camWidth` and `m_camHeight`, so that
    the fields of these names hold what was in the memory. -/
structure SimpleBuoyEstimationModule (K : Type) where
  obstacle : ObstacleType
  camWidth : K
  camHeight : K
  intrinsicParameters : Matrix3 K
  numMeasurements : ℕ

namespace SimpleBuoyEstimationModule

def new (tan : K → K) (camera : FrontCamera K) (obstacle : ObstacleType) (memory : K × K) (numMeasurements : ℕ) :
    SimpleBuoyEstimationModule K where
  obstacle := obstacle
  camWidth := memory.1
  camHeight := memory.2
  intrinsicParameters := camera.intrinsicParameters tan
  numMeasurements := numMeasurements

/-- The events that `update` leaves: those of another buoy's color, and those of a buoy at the edge. -/
def ignores (module : SimpleBuoyEstimationModule K) (buoyEvent : BuoyEvent K) : Bool :=
  (buoyEvent.color = .yellow && module.obstacle ≠ .yellowBuoy) || (buoyEvent.color = .green && module.obstacle ≠ .greenBuoy) ||
    (buoyEvent.color = .red && module.obstacle ≠ .redBuoy) || buoyEvent.touchingEdge

/-- `measurement_w` of image coordinates. -/
def locate (module : SimpleBuoyEstimationModule K) (s : EstimatedState K) (measurement_i : Vector3 K) : Vector3 K :=
  img2world measurement_i s.cameraLocation s.orientation module.intrinsicParameters

/-- `update`, from the measurements so far. -/
def update (module : SimpleBuoyEstimationModule K) (buoyMeasurements : List (Vector3 K)) (s : EstimatedState K) :
    Event K → Except Failure (List (Vector3 K) × EstimatedState K × List (ObstacleEvent K))
  | .other => .ok (buoyMeasurements, s, [])
  | .buoy buoyEvent =>
    if module.ignores buoyEvent then
      .ok (buoyMeasurements, s, [])
    else do
      let measurement_i : Vector3 K := ⟨buoyEvent.x * module.camWidth, buoyEvent.y * module.camHeight, buoyEvent.range⟩
      let measurements := lastOf module.numMeasurements (buoyMeasurements ++ [module.locate s measurement_i])
      let bestEstimate ← mean measurements
      let covariance ← getCovariance measurements
      return (measurements, { s with obstacleLocation := bestEstimate, obstacleCovariance := covariance },
        [⟨module.obstacle, bestEstimate, covariance⟩])

end SimpleBuoyEstimationModule

/-! ### `ParticleBuoyEstimationModule` -/

structure Particle3D (K : Type) where
  coords_w : Vector3 K
  coords_i : Vector3 K
  likelihood : K

/-- What the constructor sets, and nothing afterwards; `m_camWidth` and `m_camHeight` hold what was in the memory, as above. -/
structure ParticleBuoyEstimationModule (K : Type) where
  obstacle : ObstacleType
  camWidth : K
  camHeight : K
  intrinsicParameters : Matrix3 K
  invIntrinsicParameters : Matrix3 K
  numParticles : ℕ
  measurementLikelihood_i : Matrix3 K

/-- What `update` changes. -/
structure Particles (K : Type) where
  initialized : Bool
  particles : List (Particle3D K)

namespace ParticleBuoyEstimationModule

def new (tan : K → K) (camera : FrontCamera K) (obstacle : ObstacleType) (memory : K × K) (numParticles : ℕ) :
    ParticleBuoyEstimationModule K where
  obstacle := obstacle
  camWidth := memory.1
  camHeight := memory.2
  intrinsicParameters := camera.intrinsicParameters tan
  -- the constructor calls `Inverse` on its copy of the matrix, which returns the inverse and leaves the copy
  invIntrinsicParameters := camera.intrinsicParameters tan
  numParticles := numParticles
  measurementLikelihood_i := !![25, 0, 0; 0, 25, 0; 0, 0, 1]

/-- `coords_w` of a new particle. -/
def locate (module : ParticleBuoyEstimationModule K) (s : EstimatedState K) (coords_i : Vector3 K) : Vector3 K :=
  img2world coords_i s.cameraLocation s.orientation module.invIntrinsicParameters

/-- A new particle; the quotient is one of integers. -/
def newParticle (module : ParticleBuoyEstimationModule K) (s : EstimatedState K) (coords_i : Vector3 K) : Particle3D K where
  coords_w := module.locate s coords_i
  coords_i := coords_i
  likelihood := (1 / module.numParticles : ℕ)

def total (particles : List (Particle3D K)) : K := (particles.map Particle3D.likelihood).sum

def normalizeWeights (particles : List (Particle3D K)) : Except Failure (List (Particle3D K)) :=
  let sumL := total particles
  if sumL = 0 then
    .error .likelihoodsSumToZero
  else
    particles.mapM fun particle => do
      let likelihood ← divide particle.likelihood sumL
      return { particle with likelihood }

def getBestEstimate (particles : List (Particle3D K)) : Except Failure (Vector3 K) := do
  let sumW := total particles
  if sumW = 0 then
    throw .tryingToDivideByZero
  let x ← divide (particles.map fun particle => particle.coords_w.x * particle.likelihood).sum sumW
  let y ← divide (particles.map fun particle => particle.coords_w.y * particle.likelihood).sum sumW
  let z ← divide (particles.map fun particle => particle.coords_w.z * particle.likelihood).sum sumW
  return ⟨x, y, z⟩

/-- The particle's place in the image, and its likelihood after a measurement. -/
def weigh (likelihood3D : Vector3 K → Matrix3 K → Vector3 K → K) (module : ParticleBuoyEstimationModule K) (s : EstimatedState K)
    (measurement_i : Vector3 K) (particle : Particle3D K) : Except Failure (Particle3D K) := do
  let coords_i ← world2img particle.coords_w s.cameraLocation s.orientation module.intrinsicParameters
  return { particle with
    coords_i, likelihood := particle.likelihood * likelihood3D measurement_i module.measurementLikelihood_i coords_i }

/-- The part `Initialization` of `update`: the particles are drawn around the first measurement. -/
def initialization (samples : Vector3 K → Matrix3 K → ℕ → Vector3 K) (module : ParticleBuoyEstimationModule K) (p : Particles K)
    (s : EstimatedState K) (measurement_i : Vector3 K) : Except Failure (Particles K × EstimatedState K × List (ObstacleEvent K)) := do
  let drawn := (List.range module.numParticles).map fun i => module.newParticle s (samples measurement_i module.measurementLikelihood_i i)
  let particles ← normalizeWeights (p.particles ++ drawn)
  return (⟨true, particles⟩, s, [])

/-- The part `Algorithm` of `update`. Without any weight left the particles are drawn again with the next measurement. -/
def algorithm (likelihood3D : Vector3 K → Matrix3 K → Vector3 K → K) (module : ParticleBuoyEstimationModule K) (p : Particles K)
    (s : EstimatedState K) (measurement_i : Vector3 K) : Except Failure (Particles K × EstimatedState K × List (ObstacleEvent K)) := do
  let particles ← p.particles.mapM (module.weigh likelihood3D s measurement_i)
  if total particles = 0 then
    return (⟨false, []⟩, s, [])
  else
    let particles ← normalizeWeights particles
    let bestEstimate ← getBestEstimate particles
    let spread ← getCovariance (particles.map Particle3D.coords_w)
    return (⟨true, particles⟩, { s with obstacleLocation := bestEstimate, obstacleCovariance := spread },
      [⟨module.obstacle, bestEstimate, spread⟩])

def update (likelihood3D : Vector3 K → Matrix3 K → Vector3 K → K) (samples : Vector3 K → Matrix3 K → ℕ → Vector3 K)
    (module : ParticleBuoyEstimationModule K) (p : Particles K) (s : EstimatedState K) :
    Event K → Except Failure (Particles K × EstimatedState K × List (ObstacleEvent K))
  | .other => .ok (p, s, [])
  | .buoy buoyEvent =>
    if buoyEvent.touchingEdge then
      .ok (p, s, [])
    else
      let measurement_i : Vector3 K := ⟨buoyEvent.x * module.camWidth, buoyEvent.y * module.camHeight, buoyEvent.range⟩
      if ¬ p.initialized then
        initialization samples module p s measurement_i
      else
        algorithm likelihood3D module p s measurement_i

end ParticleBuoyEstimationModule

/-! ### Finding a buoy -/

/-- The place that is computed from the image coordinates of a buoy is that of the buoy. -/
def Locates (locate : EstimatedState K → Vector3 K → Vector3 K) (intrinsicParameters : Matrix3 K) (s : EstimatedState K)
    (coords_w : Vector3 K) : Prop :=
  ∃ coords_i, world2img coords_w s.cameraLocation s.orientation intrinsicParameters = .ok coords_i ∧ locate s coords_i = coords_w

variable {tan : K → K} {camera : FrontCamera K} {s : EstimatedState K} {coords_w : Vector3 K}

/-- A module that goes back with the camera matrix itself. -/
theorem locates_iff (unit : s.orientation.norm = 1) (deep : (s.inCamera coords_w).z ≠ 0) :
    Locates (fun s coords_i => img2world coords_i s.cameraLocation s.orientation (camera.intrinsicParameters tan))
      (camera.intrinsicParameters tan) s coords_w ↔ Focused tan camera (s.inCamera coords_w) := by
  have before : ((camera.intrinsicParameters tan).apply (s.inCamera coords_w)).z ≠ 0 := by
    rwa [intrinsicParameters_apply]
  rw [← intrinsicParameters_twice]
  obtain ⟨coords_i, projected⟩ := world2img_exists before
  constructor
  · rintro ⟨_, projected', same⟩
    exact (img2world_eq_iff unit projected').mp same
  · intro fixed
    exact ⟨coords_i, projected, (img2world_eq_iff unit projected).mpr fixed⟩

theorem simple_locates_iff (obstacle : ObstacleType) (memory : K × K) (numMeasurements : ℕ) (unit : s.orientation.norm = 1)
    (deep : (s.inCamera coords_w).z ≠ 0) :
    Locates (SimpleBuoyEstimationModule.new tan camera obstacle memory numMeasurements).locate (camera.intrinsicParameters tan) s coords_w ↔
      Focused tan camera (s.inCamera coords_w) := locates_iff unit deep

theorem particle_locates_iff (obstacle : ObstacleType) (memory : K × K) (numParticles : ℕ) (unit : s.orientation.norm = 1)
    (deep : (s.inCamera coords_w).z ≠ 0) :
    Locates (ParticleBuoyEstimationModule.new tan camera obstacle memory numParticles).locate (camera.intrinsicParameters tan) s coords_w ↔
      Focused tan camera (s.inCamera coords_w) := locates_iff unit deep

/-- The inverse of a diagonal matrix finds a buoy again; the modules find it where it is straight before the camera in each direction
    in which the focal length is not one or minus one. -/
theorem localise_correct (obstacle : ObstacleType) (memory : K × K) (count : ℕ) (unit : s.orientation.norm = 1)
    (deep : (s.inCamera coords_w).z ≠ 0) :
    (∀ (d : Fin 3 → K) (n : Matrix3 K), (∀ i, d i ≠ 0) → n * Matrix.diagonal d = 1 →
      Locates (fun s coords_i => img2world coords_i s.cameraLocation s.orientation n) (Matrix.diagonal d) s coords_w) ∧
    (Locates (SimpleBuoyEstimationModule.new tan camera obstacle memory count).locate (camera.intrinsicParameters tan) s coords_w ↔
      Focused tan camera (s.inCamera coords_w)) ∧
    (Locates (ParticleBuoyEstimationModule.new tan camera obstacle memory count).locate (camera.intrinsicParameters tan) s coords_w ↔
      Focused tan camera (s.inCamera coords_w)) := by
  refine ⟨fun d n nonzero inverse => ?_, simple_locates_iff obstacle memory count unit deep,
    particle_locates_iff obstacle memory count unit deep⟩
  have before : (Matrix3.apply (Matrix.diagonal d) (s.inCamera coords_w)).z ≠ 0 := by
    simp [Matrix3.apply, nonzero, deep]
  obtain ⟨coords_i, projected⟩ := world2img_exists before
  exact ⟨coords_i, projected, img2world_inverse unit inverse projected⟩

end

/-- A vehicle at the origin that looks along the third axis, for a buoy one to the side at a depth of one. -/
def atOrigin : EstimatedState ℚ := ⟨0, 0, ⟨0, 0, 0, 1⟩, ⟨0, 0, 0⟩, 0⟩

/-- A camera of 640 by 480 points with a tangent of the half angles of one. -/
def wide : FrontCamera ℚ := ⟨2, 2, 640, 480⟩

theorem atOrigin_norm : atOrigin.orientation.norm = 1 := by
  norm_num [atOrigin, Geometry.Quaternion.norm]

theorem inCamera_atOrigin (v : Vector3 ℚ) : atOrigin.inCamera v = v := by
  ext <;> simp [EstimatedState.inCamera, EstimatedState.cameraLocation, atOrigin, Geometry.Quaternion.rotate, Vector3.crossProduct]

theorem localise_correct_ahead :
    Locates (SimpleBuoyEstimationModule.new (fun v => v) wide .redBuoy (0, 0) 30).locate (wide.intrinsicParameters fun v => v) atOrigin
      ⟨0, 0, 5⟩ :=
  (localise_correct .redBuoy (0, 0) 30 atOrigin_norm (by simp [inCamera_atOrigin])).2.1.mpr (by simp [inCamera_atOrigin, Focused])

/-- A buoy one to the side is found 640 times 640 to the side. -/
theorem localise_wrong :
    (SimpleBuoyEstimationModule.new (fun v => v) wide .redBuoy (0, 0) 30).locate atOrigin ⟨640, 0, 1⟩ = ⟨409600, 0, 1⟩ ∧
    ¬ Locates (SimpleBuoyEstimationModule.new (fun v => v) wide .redBuoy (0, 0) 30).locate (wide.intrinsicParameters fun v => v) atOrigin
      ⟨1, 0, 1⟩ ∧
    ¬ Locates (ParticleBuoyEstimationModule.new (fun v => v) wide .redBuoy (0, 0) 200).locate (wide.intrinsicParameters fun v => v)
      atOrigin ⟨1, 0, 1⟩ := by
  have deep : (atOrigin.inCamera ⟨1, 0, 1⟩).z ≠ 0 := by
    simp [inCamera_atOrigin]
  have aside : ¬ Focused (fun v => v) wide (atOrigin.inCamera ⟨1, 0, 1⟩) := by
    norm_num [inCamera_atOrigin, Focused, wide]
  refine ⟨?_, ?_, ?_⟩
  · have straight : atOrigin.orientation.unitInverse = atOrigin.orientation := by
      simp [atOrigin, Geometry.Quaternion.unitInverse]
    rw [SimpleBuoyEstimationModule.locate, SimpleBuoyEstimationModule.new, img2world, intrinsicParameters_apply, straight]
    ext <;> norm_num [Geometry.Quaternion.rotate, EstimatedState.cameraLocation, atOrigin, wide, Vector3.crossProduct]
  · rw [simple_locates_iff .redBuoy (0, 0) 30 atOrigin_norm deep]
    exact aside
  · rw [particle_locates_iff .redBuoy (0, 0) 200 atOrigin_norm deep]
    exact aside

end Tortuga.BuoyEstimation
