import Tortuga.Attitudes
import Tortuga.ImuEstimation

/-!
What `BasicIMUEstimationModule` makes of a vehicle at rest: the orientation that it estimates from the field at the boom and the
acceleration in the centre, over any events.
-/
namespace Tortuga.RestingVehicle
open Tortuga.Attitudes
open Tortuga.Geometry
open Tortuga.ImuEstimation
open Tortuga.Orientations
open Tortuga.RotationMatrices
open Tortuga.SlidingWindows
open Tortuga.Thrusters (Vector3)

/-! ### The filters -/

section
variable {K : Type} [Field K] [CharZero K] {data : List (RawIMUData K)} {v : Vector3 K}

/-- A channel that has had one value for as long as the filter looks back. -/
theorem filtered_steady (some : data ≠ []) {channel : Channel} {value : K}
    (steady : ∀ d ∈ lastOf FILTER_SIZE data, d channel = value) : filtered data channel = value := by
  have window : lastOf FILTER_SIZE (data.map fun d => d channel) = (lastOf FILTER_SIZE data).map fun d => d channel := by
    rw [lastOf, lastOf, List.length_map, List.map_drop]
  have same : lastOf FILTER_SIZE (data.map fun d => d channel) = List.replicate (lastOf FILTER_SIZE data).length value := by
    rw [window]
    refine List.eq_replicate_iff.mpr ⟨List.length_map _, ?_⟩
    rintro b member
    obtain ⟨d, inside, rfl⟩ := List.mem_map.mp member
    exact steady d inside
  have length : ((lastOf FILTER_SIZE data).length : K) ≠ 0 := by
    rw [lastOf_length]
    exact Nat.cast_ne_zero.mpr (lt_min (List.length_pos_iff.mpr some) (by decide)).ne'
  rw [filtered, same, List.sum_replicate, List.length_replicate, nsmul_eq_mul, mul_div_cancel_left₀ _ length]

theorem filtered_accel (some : data ≠ []) (steady : ∀ d ∈ lastOf FILTER_SIZE data, d.accel = v) : (filtered data).accel = v := by
  ext
  · exact filtered_steady some fun d inside => congrArg Vector3.x (steady d inside)
  · exact filtered_steady some fun d inside => congrArg Vector3.y (steady d inside)
  · exact filtered_steady some fun d inside => congrArg Vector3.z (steady d inside)

theorem filtered_mag (some : data ≠ []) (steady : ∀ d ∈ lastOf FILTER_SIZE data, d.mag = v) : (filtered data).mag = v := by
  ext
  · exact filtered_steady some fun d inside => congrArg Vector3.x (steady d inside)
  · exact filtered_steady some fun d inside => congrArg Vector3.y (steady d inside)
  · exact filtered_steady some fun d inside => congrArg Vector3.z (steady d inside)

end

/-! ### Unit length -/

variable {q f : Geometry.Quaternion ℝ}

theorem toVec_normalise : toVec (normalise Real.sqrt f) = fun i => 1 / √f.norm * toVec f i := by
  ext i
  fin_cases i <;> rfl

/-- What has one entry of the right size is found by `normalise` only if it is right already. -/
theorem normalise_found_iff (unit : q.norm = 1) {p : Fin 4} (away : toVec q p ≠ 0) (size : |toVec f p| = |toVec q p|) :
    (normalise Real.sqrt f = q ∨ normalise Real.sqrt f = -q) ↔ (f = q ∨ f = -q) := by
  have kept (one : 1 / √f.norm = 1) : normalise Real.sqrt f = f := by
    refine toVec_injective ?_
    rw [toVec_normalise, one]
    exact funext fun i => one_mul _
  constructor
  · intro found
    have entry : |toVec (normalise Real.sqrt f) p| = |toVec q p| := by
      rcases found with same | opposite
      · rw [same]
      · rw [opposite, toVec_neg, Pi.neg_apply, abs_neg]
    rw [toVec_normalise, abs_mul, size, abs_of_nonneg (by positivity), mul_eq_right₀ (abs_ne_zero.mpr away)] at entry
    rwa [kept entry] at found
  · intro found
    have length : f.norm = 1 := by
      rcases found with same | opposite
      · rw [same, unit]
      · rw [opposite, norm_eq, toVec_neg, neg_dotProduct_neg, ← norm_eq, unit]
    rwa [kept (by rw [length, Real.sqrt_one, div_one])]

/-! ### The estimates -/

section
variable {Name : Type} [DecidableEq Name] {boom cg : Name} {steps : List (Step Name ℝ)} {earth : Earth}

/-- A vehicle with the orientation `q` has been at rest for as long as the filters look back, and both IMUs have delivered. -/
structure AtRest (earth : Earth) (q : Geometry.Quaternion ℝ) (boom cg : Name) (steps : List (Step Name ℝ)) : Prop where
  boom_delivered : delivered boom steps ≠ []
  cg_delivered : delivered cg steps ≠ []
  mag : ∀ data ∈ lastOf FILTER_SIZE (delivered boom steps), data.mag = q.unitInverse.rotate earth.mag
  accel : ∀ data ∈ lastOf FILTER_SIZE (delivered cg steps), data.accel = q.unitInverse.rotate earth.accel

theorem AtRest.source (rest : AtRest earth q boom cg steps) (ievent : RawIMUDataEvent Name ℝ) (old : Geometry.Quaternion ℝ) :
    source Real.sqrt (delivered boom steps) (delivered cg steps) ievent old = earth.orientation q := by
  rw [ImuEstimation.source, if_pos rest.boom_delivered, filtered_mag rest.boom_delivered rest.mag,
    filtered_accel rest.cg_delivered rest.accel, Earth.orientation]

/-- After any events, the orientation of a vehicle at rest is estimated, but for the sign of the quaternion, exactly in these cases. -/
theorem estimated_at_rest_iff (earth : Earth) (q : Geometry.Quaternion ℝ) (unit : q.norm = 1) (boom cg : Name)
    (earlier : List (Step Name ℝ)) (s : EstimatedState ℝ) (ievent : RawIMUDataEvent Name ℝ) (named : ievent.name = boom ∨ ievent.name = cg)
    (rest : AtRest earth q boom cg (earlier ++ [(s, .rawUpdate ievent)])) :
    let estimated := ((run Real.sqrt boom cg earlier).update Real.sqrt s (.rawUpdate ievent)).2.1.orientation
    (estimated = q ∨ estimated = -q) ↔ 0.125 ≤ |q.w| ∨ |q.z| < 0.125 ∧ 0.125 ≤ |q.y| ∨ q.w * q.y = q.x * q.z := by
  intro estimated
  have set : Estimates Real.sqrt boom cg earlier s ievent := (estimates_iff earlier named rest.cg_delivered).mpr rest.boom_delivered
  have found : estimated = normalise Real.sqrt (earth.orientation q) := by
    have pair := congrArg (fun result => result.1.orientation) set
    rwa [rest.source] at pair
  obtain ⟨p, away, size⟩ := orientation_pivot earth unit
  rw [found, normalise_found_iff unit away size]
  exact orientation_found_iff earth unit

end

/-- What an IMU measures in a vehicle at rest. -/
noncomputable def resting (earth : Earth) (q : Geometry.Quaternion ℝ) : RawIMUData ℝ
  | .accelX => (q.unitInverse.rotate earth.accel).x
  | .accelY => (q.unitInverse.rotate earth.accel).y
  | .accelZ => (q.unitInverse.rotate earth.accel).z
  | .magX => (q.unitInverse.rotate earth.mag).x
  | .magY => (q.unitInverse.rotate earth.mag).y
  | .magZ => (q.unitInverse.rotate earth.mag).z
  | .gyroX => 0
  | .gyroY => 0
  | .gyroZ => 0

/-- The orientation of a vehicle that heads south and is pitched. -/
noncomputable def south : Geometry.Quaternion ℝ := ⟨0.6, 0, 0.8, 0⟩

/-- One measurement of each of the two IMUs. -/
noncomputable def southern (boom : Bool) : RawIMUDataEvent Bool ℝ := ⟨boom, resting default south, false, 1⟩

def unknown : EstimatedState ℝ := ⟨⟨0, 0, 0, 1⟩, ⟨0, 0, 0⟩, ⟨0, 0, 0⟩⟩

theorem south_missed :
    let estimated := ((run Real.sqrt true false [(unknown, .rawUpdate (southern true))]).update Real.sqrt unknown
      (.rawUpdate (southern false))).2.1.orientation
    ¬(estimated = south ∨ estimated = -south) := by
  have unit : south.norm = 1 := by norm_num [south, Geometry.Quaternion.norm]
  have rest : AtRest default south true false ([(unknown, .rawUpdate (southern true))] ++ [(unknown, .rawUpdate (southern false))]) := by
    refine ⟨List.cons_ne_nil _ _, List.cons_ne_nil _ _, ?_, ?_⟩
    · intro data inside
      rw [List.mem_singleton.mp inside]
      rfl
    · intro data inside
      rw [List.mem_singleton.mp inside]
      rfl
  refine (estimated_at_rest_iff default south unit true false _ unknown (southern false) (.inr rfl) rest).not.mpr ?_
  norm_num [south]

end Tortuga.RestingVehicle
