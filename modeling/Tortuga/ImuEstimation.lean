import Tortuga.AveragingFilters
import Tortuga.Orientations
import Mathlib.Algebra.Order.Ring.Rat
import Mathlib.Data.List.Infix

/-!
The orientation from two IMUs (`BasicIMUEstimationModule.cpp`): which measurements it is computed
from, over any events. Names are of any kind.
-/
namespace Tortuga.ImuEstimation
open Tortuga.AveragingFilters Tortuga.Geometry Tortuga.Orientations Tortuga.SlidingWindows
open Tortuga.Thrusters (Vector3)

/-- The fields of `RawIMUData` that are filtered. -/
inductive Channel
  | accelX
  | accelY
  | accelZ
  | magX
  | magY
  | magZ
  | gyroX
  | gyroY
  | gyroZ
  deriving DecidableEq

abbrev RawIMUData (K : Type) := Channel → K

namespace RawIMUData
variable {K : Type} (data : RawIMUData K)

def accel : Vector3 K := ⟨data .accelX, data .accelY, data .accelZ⟩

def mag : Vector3 K := ⟨data .magX, data .magY, data .magZ⟩

def gyro : Vector3 K := ⟨data .gyroX, data .gyroY, data .gyroZ⟩

end RawIMUData

structure RawIMUDataEvent (Name K : Type) where
  name : Name
  rawIMUData : RawIMUData K
  magIsCorrupt : Bool
  timestep : K

inductive Event (Name K : Type)
  | rawUpdate (ievent : RawIMUDataEvent Name K)
  /-- An event that the cast fails on. -/
  | other

/-- What the module reads and sets of `EstimatedState`. -/
structure EstimatedState (K : Type) where
  orientation : Geometry.Quaternion K
  linearAccel : Vector3 K
  angularRate : Vector3 K

/-- What the setters of `EstimatedState` publish. -/
inductive Update (K : Type)
  | orientation (orientation : Geometry.Quaternion K)
  | linearAccel (linearAccel : Vector3 K)
  | angularRate (angularRate : Vector3 K)

abbrev FILTER_SIZE : ℕ := 30

/-- An event, and what the estimated state is by then. -/
abbrev Step (Name K : Type) := EstimatedState K × Event Name K

/-! ### What the IMUs have delivered -/

section
variable {Name K : Type} [DecidableEq Name]

/-- What an event brings from an IMU. -/
def measured (name : Name) (step : Step Name K) : Option (RawIMUData K) :=
  match step.2 with
  | .rawUpdate ievent => if ievent.name = name then some ievent.rawIMUData else none
  | .other => none

/-- All that an IMU has delivered, in order. -/
def delivered (name : Name) (steps : List (Step Name K)) : List (RawIMUData K) := steps.filterMap (measured name)

variable {name : Name} {s : EstimatedState K} {ievent : RawIMUDataEvent Name K}

theorem measured_own : measured ievent.name (s, .rawUpdate ievent) = some ievent.rawIMUData := if_pos rfl

theorem measured_other (other : ievent.name ≠ name) : measured name (s, .rawUpdate ievent) = none := if_neg other

theorem delivered_snoc (name : Name) (steps : List (Step Name K)) (step : Step Name K) :
    delivered name (steps ++ [step]) = delivered name steps ++ (measured name step).toList := by
  rw [delivered, List.filterMap_append, delivered]
  cases fresh : measured name step <;> simp [fresh]

/-- An IMU that is the first to deliver has delivered by each event. -/
theorem delivered_first (name : Name) (first : Step Name K) (rest earlier : List (Step Name K)) (step : Step Name K)
    (own : measured name first ≠ none) (inside : earlier ++ [step] <+: first :: rest) : delivered name (earlier ++ [step]) ≠ [] := by
  have member : first ∈ earlier ++ [step] := by
    cases earlier with
    | nil => exact List.mem_singleton.mpr (List.cons_prefix_cons.mp inside).1.symm
    | cons head tail =>
      rw [(List.cons_prefix_cons.mp inside).1]
      exact List.mem_cons_self
  obtain ⟨data, brought⟩ := Option.ne_none_iff_exists'.mp own
  exact List.ne_nil_of_mem (List.mem_filterMap.mpr ⟨first, member, brought⟩)

end

/-! ### The module -/

section
variable {Name K : Type} [DecidableEq Name] [Field K]

/-- The maps have an entry for a name once they have been asked for it; a filter is then one without values. -/
structure BasicIMUEstimationModule (Name K : Type) where
  magIMUName : Name
  cgIMUName : Name
  imuList : List Name
  filteredState : Name → Option (RawIMUData K)
  filters : Channel → Name → AveragingFilter K

namespace BasicIMUEstimationModule

def new (magIMUName cgIMUName : Name) : BasicIMUEstimationModule Name K :=
  ⟨magIMUName, cgIMUName, [], fun _ => none, fun _ _ => .new⟩

/-- The part of `update` that filters the new values. -/
def filter (module : BasicIMUEstimationModule Name K) (name : Name) (newState : RawIMUData K) : BasicIMUEstimationModule Name K :=
  let filters (channel : Channel) := Function.update (module.filters channel) name
    ((module.filters channel name).addValue FILTER_SIZE (newState channel))
  { module with
    imuList := name :: module.imuList
    filters
    filteredState := Function.update module.filteredState name (some fun channel => (filters channel name).getValue FILTER_SIZE) }

section
variable {module : BasicIMUEstimationModule Name K} {name other : Name} {newState : RawIMUData K} {channel : Channel}

theorem filter_imuList : other ∈ (module.filter name newState).imuList ↔ other = name ∨ other ∈ module.imuList := List.mem_cons

theorem filter_filters_self : (module.filter name newState).filters channel name =
    (module.filters channel name).addValue FILTER_SIZE (newState channel) := Function.update_self ..

theorem filter_filters_of_ne (ne : other ≠ name) : (module.filter name newState).filters channel other = module.filters channel other :=
  Function.update_of_ne ne ..

theorem filter_filteredState_self : (module.filter name newState).filteredState name =
    some fun channel => ((module.filter name newState).filters channel name).getValue FILTER_SIZE := Function.update_self ..

theorem filter_filteredState_of_ne (ne : other ≠ name) : (module.filter name newState).filteredState other = module.filteredState other :=
  Function.update_of_ne ne ..

end

end BasicIMUEstimationModule

/-! ### What the module has stored -/

/-- The mean of the last values of each channel. -/
def filtered (data : List (RawIMUData K)) : RawIMUData K := fun channel =>
  (lastOf FILTER_SIZE (data.map fun d => d channel)).sum / (lastOf FILTER_SIZE (data.map fun d => d channel)).length

variable {boom cg name : Name} {module : BasicIMUEstimationModule Name K} {steps : List (Step Name K)} {step : Step Name K}

/-- What the module has of each of the two IMUs, after the events. -/
structure Tracks (boom cg : Name) (module : BasicIMUEstimationModule Name K) (steps : List (Step Name K)) : Prop where
  magIMUName : module.magIMUName = boom
  cgIMUName : module.cgIMUName = cg
  listed : ∀ name, name = boom ∨ name = cg → (name ∈ module.imuList ↔ delivered name steps ≠ [])
  filters : ∀ name, name = boom ∨ name = cg → ∀ channel, module.filters channel name =
    AveragingFilters.run FILTER_SIZE .plain (((delivered name steps).map fun d => d channel).map .addValue)
  filteredState : ∀ name, name = boom ∨ name = cg → module.filteredState name =
    if delivered name steps = [] then none else some (filtered (delivered name steps))

theorem tracks_new (boom cg : Name) : Tracks boom cg (.new boom cg : BasicIMUEstimationModule Name K) [] := by
  refine ⟨rfl, rfl, ?_, ?_, ?_⟩
  · intro name _
    simp [BasicIMUEstimationModule.new, delivered]
  · intro name _ channel
    rfl
  · intro name _
    rfl

/-- An event that brings nothing from the two leaves the module as it is. -/
theorem Tracks.idle (tracks : Tracks boom cg module steps) (nothing : ∀ name, name = boom ∨ name = cg → measured name step = none) :
    Tracks boom cg module (steps ++ [step]) := by
  have same (name : Name) (two : name = boom ∨ name = cg) : delivered name (steps ++ [step]) = delivered name steps := by
    rw [delivered_snoc, nothing name two, Option.toList_none, List.append_nil]
  refine ⟨tracks.magIMUName, tracks.cgIMUName, ?_, ?_, ?_⟩
  · intro name two
    rw [same name two]
    exact tracks.listed name two
  · intro name two
    rw [same name two]
    exact tracks.filters name two
  · intro name two
    rw [same name two]
    exact tracks.filteredState name two

/-- An event of one of the two is filtered. -/
theorem Tracks.filter [CharZero K] (tracks : Tracks boom cg module steps) (s : EstimatedState K) (ievent : RawIMUDataEvent Name K) :
    Tracks boom cg (module.filter ievent.name ievent.rawIMUData) (steps ++ [(s, .rawUpdate ievent)]) := by
  have own : delivered ievent.name (steps ++ [(s, .rawUpdate ievent)]) = delivered ievent.name steps ++ [ievent.rawIMUData] := by
    rw [delivered_snoc, measured_own, Option.toList_some]
  have others {name : Name} (ne : name ≠ ievent.name) : delivered name (steps ++ [(s, .rawUpdate ievent)]) = delivered name steps := by
    rw [delivered_snoc, measured_other ne.symm, Option.toList_none, List.append_nil]
  have some : delivered ievent.name (steps ++ [(s, .rawUpdate ievent)]) ≠ [] := by
    rw [own]
    exact List.append_ne_nil_of_right_ne_nil _ (List.cons_ne_nil _ _)
  have filters (name : Name) (two : name = boom ∨ name = cg) (channel : Channel) :
      (module.filter ievent.name ievent.rawIMUData).filters channel name = AveragingFilters.run FILTER_SIZE .plain
        (((delivered name (steps ++ [(s, .rawUpdate ievent)])).map fun d => d channel).map .addValue) := by
    by_cases same : name = ievent.name
    · subst same
      rw [own, List.map_append, List.map_append, AveragingFilters.run, List.foldl_append, ← AveragingFilters.run,
        ← tracks.filters _ two channel, BasicIMUEstimationModule.filter_filters_self]
      rfl
    · rw [others same, ← tracks.filters name two channel, BasicIMUEstimationModule.filter_filters_of_ne same]
  refine ⟨tracks.magIMUName, tracks.cgIMUName, ?_, filters, ?_⟩
  · intro name two
    rw [BasicIMUEstimationModule.filter_imuList, tracks.listed name two]
    by_cases same : name = ievent.name
    · subst same
      exact iff_of_true (.inl rfl) some
    · rw [others same, or_iff_right same]
  · intro name two
    by_cases same : name = ievent.name
    · subst same
      rw [if_neg some, BasicIMUEstimationModule.filter_filteredState_self, Option.some_inj]
      funext channel
      rw [filters _ two channel, run_addValue (by decide) (mt List.map_eq_nil_iff.mp some), filtered]
    · rw [others same, ← tracks.filteredState name two, BasicIMUEstimationModule.filter_filteredState_of_ne same]

/-! ### The update -/

variable [LinearOrder K]

namespace BasicIMUEstimationModule

/-- The estimated orientation, from the filtered values of the two IMUs. -/
def orientation (sqrt : K → K) (module : BasicIMUEstimationModule Name K) (cg boom : RawIMUData K) (ievent : RawIMUDataEvent Name K)
    (oldOrientation : Geometry.Quaternion K) : Geometry.Quaternion K :=
  if module.magIMUName ∈ module.imuList then
    quaternionFromMagAccel sqrt boom.mag cg.accel
  else if ¬ ievent.magIsCorrupt then
    quaternionFromMagAccel sqrt cg.mag cg.accel
  else
    quaternionFromRate sqrt oldOrientation cg.gyro ievent.timestep

/-- The part of `update` behind the filters. The pointers in the map are never empty, so that it leaves at a missing entry only. -/
def estimate (sqrt : K → K) (module : BasicIMUEstimationModule Name K) (s : EstimatedState K) (ievent : RawIMUDataEvent Name K) :
    EstimatedState K × List (Update K) :=
  match module.filteredState module.cgIMUName with
  | none => (s, [])
  | some cg =>
    match module.filteredState module.magIMUName with
    | none => (s, [])
    | some boom =>
      if module.cgIMUName ∉ module.imuList then
        (s, [])
      else
        let orientation := normalise sqrt (module.orientation sqrt cg boom ievent s.orientation)
        (⟨orientation, cg.accel, cg.gyro⟩, [.orientation orientation, .linearAccel cg.accel, .angularRate cg.gyro])

def update (sqrt : K → K) (module : BasicIMUEstimationModule Name K) (s : EstimatedState K) :
    Event Name K → BasicIMUEstimationModule Name K × EstimatedState K × List (Update K)
  | .other => (module, s, [])
  | .rawUpdate ievent =>
    if ievent.name ≠ module.magIMUName ∧ ievent.name ≠ module.cgIMUName then
      (module, s, [])
    else
      let filtered := module.filter ievent.name ievent.rawIMUData
      (filtered, filtered.estimate sqrt s ievent)

end BasicIMUEstimationModule

def next (sqrt : K → K) (module : BasicIMUEstimationModule Name K) (step : Step Name K) : BasicIMUEstimationModule Name K :=
  (module.update sqrt step.1 step.2).1

/-- A new module after the events. -/
def run (sqrt : K → K) (magIMUName cgIMUName : Name) (steps : List (Step Name K)) : BasicIMUEstimationModule Name K :=
  steps.foldl (next sqrt) (.new magIMUName cgIMUName)

/-! ### What the estimates should be -/

/-- The orientation from what the boom's IMU and the one in the centre have delivered: with the magnetometer of the boom if there is
    one, else with that of the centre if it is not corrupt, else from the angular rate. -/
def source (sqrt : K → K) (boom cg : List (RawIMUData K)) (ievent : RawIMUDataEvent Name K) (oldOrientation : Geometry.Quaternion K) :
    Geometry.Quaternion K :=
  if boom ≠ [] then
    quaternionFromMagAccel sqrt (filtered boom).mag (filtered cg).accel
  else if ievent.magIsCorrupt = false then
    quaternionFromMagAccel sqrt (filtered cg).mag (filtered cg).accel
  else
    quaternionFromRate sqrt oldOrientation (filtered cg).gyro ievent.timestep

/-- The event after the earlier ones sets the orientation, the acceleration and the angular rate to what they should be. -/
def Estimates (sqrt : K → K) (magIMUName cgIMUName : Name) (earlier : List (Step Name K)) (s : EstimatedState K)
    (ievent : RawIMUDataEvent Name K) : Prop :=
  let steps := earlier ++ [(s, .rawUpdate ievent)]
  let cg := filtered (delivered cgIMUName steps)
  let orientation := normalise sqrt (source sqrt (delivered magIMUName steps) (delivered cgIMUName steps) ievent s.orientation)
  ((run sqrt magIMUName cgIMUName earlier).update sqrt s (.rawUpdate ievent)).2 =
    (⟨orientation, cg.accel, cg.gyro⟩, [.orientation orientation, .linearAccel cg.accel, .angularRate cg.gyro])

variable {sqrt : K → K} {s : EstimatedState K} {ievent : RawIMUDataEvent Name K}

theorem tracks_run [IsStrictOrderedRing K] (sqrt : K → K) (boom cg : Name) (steps : List (Step Name K)) :
    Tracks boom cg (run sqrt boom cg steps) steps := by
  induction steps using List.reverseRecOn with
  | nil => exact tracks_new boom cg
  | append_singleton steps step ih =>
    rw [run, List.foldl_append, ← run, List.foldl_cons, List.foldl_nil]
    obtain ⟨s, event⟩ := step
    cases event with
    | other => exact ih.idle fun name _ => rfl
    | rawUpdate ievent =>
      rw [next, BasicIMUEstimationModule.update, ih.magIMUName, ih.cgIMUName]
      split_ifs with unknown
      · refine ih.idle fun name two => measured_other ?_
        rintro rfl
        exact two.elim unknown.1 unknown.2
      · exact ih.filter s ievent

/-! ### The estimates -/

/-- With the values of both IMUs the estimates are set; without those of the boom nothing is. -/
theorem estimate_iff (tracks : Tracks boom cg module steps) (centre : delivered cg steps ≠ []) (s : EstimatedState K)
    (ievent : RawIMUDataEvent Name K) :
    module.estimate sqrt s ievent = (⟨normalise sqrt (source sqrt (delivered boom steps) (delivered cg steps) ievent s.orientation),
        (filtered (delivered cg steps)).accel, (filtered (delivered cg steps)).gyro⟩,
      [.orientation (normalise sqrt (source sqrt (delivered boom steps) (delivered cg steps) ievent s.orientation)),
        .linearAccel (filtered (delivered cg steps)).accel, .angularRate (filtered (delivered cg steps)).gyro]) ↔
      delivered boom steps ≠ [] := by
  have listed : cg ∈ module.imuList := (tracks.listed cg (.inr rfl)).mpr centre
  rw [BasicIMUEstimationModule.estimate, tracks.cgIMUName, tracks.magIMUName, tracks.filteredState cg (.inr rfl), if_neg centre,
    tracks.filteredState boom (.inl rfl)]
  by_cases none : delivered boom steps = []
  · simp [none]
  · have mag : boom ∈ module.imuList := (tracks.listed boom (.inl rfl)).mpr none
    simp [none, listed, BasicIMUEstimationModule.orientation, source, tracks.magIMUName, mag]

theorem estimates_iff [IsStrictOrderedRing K] (earlier : List (Step Name K)) (named : ievent.name = boom ∨ ievent.name = cg)
    (centre : delivered cg (earlier ++ [(s, .rawUpdate ievent)]) ≠ []) :
    Estimates sqrt boom cg earlier s ievent ↔ delivered boom (earlier ++ [(s, .rawUpdate ievent)]) ≠ [] := by
  have tracks := tracks_run sqrt boom cg earlier
  have known : ¬ (ievent.name ≠ boom ∧ ievent.name ≠ cg) := fun unknown => named.elim unknown.1 unknown.2
  rw [Estimates, BasicIMUEstimationModule.update, tracks.magIMUName, tracks.cgIMUName, if_neg known]
  exact estimate_iff (tracks.filter s ievent) centre s ievent

/-- The events that come once the IMU in the centre has delivered set the estimates to what they should be, over just those runs in which
    the boom's IMU has delivered by each of these events. -/
theorem source_correct [IsStrictOrderedRing K] (sqrt : K → K) (boom cg : Name) (steps : List (Step Name K)) :
    (∀ earlier s ievent, earlier ++ [(s, .rawUpdate ievent)] <+: steps → ievent.name = boom ∨ ievent.name = cg →
      delivered cg (earlier ++ [(s, .rawUpdate ievent)]) ≠ [] → Estimates sqrt boom cg earlier s ievent) ↔
    (∀ earlier s ievent, earlier ++ [(s, .rawUpdate ievent)] <+: steps → ievent.name = boom ∨ ievent.name = cg →
      delivered cg (earlier ++ [(s, .rawUpdate ievent)]) ≠ [] → delivered boom (earlier ++ [(s, .rawUpdate ievent)]) ≠ []) := by
  constructor
  · intro right earlier s ievent inside named centre
    exact (estimates_iff earlier named centre).mp (right earlier s ievent inside named centre)
  · intro both earlier s ievent inside named centre
    exact (estimates_iff earlier named centre).mpr (both earlier s ievent inside named centre)

end

/-- A state in which nothing has been estimated yet. -/
def still : EstimatedState ℚ := ⟨⟨0, 0, 0, 1⟩, ⟨0, 0, 0⟩, ⟨0, 0, 0⟩⟩

/-- A measurement of the IMU in the centre, or of the one on the boom. -/
def reading (boom : Bool) : RawIMUDataEvent Bool ℚ := ⟨boom, fun _ => 1, false, 1⟩

theorem source_correct_boom : Estimates (fun v => v) true false [(still, .rawUpdate (reading true))] still (reading false) := by
  have centre : delivered false ([(still, .rawUpdate (reading true))] ++ [(still, .rawUpdate (reading false))]) ≠ [] := List.cons_ne_nil _ _
  have right := (source_correct (fun v => v) true false [(still, .rawUpdate (reading true)), (still, .rawUpdate (reading false))]).mpr
    fun earlier _ _ inside _ _ => delivered_first true (still, .rawUpdate (reading true)) _ earlier _ (Option.some_ne_none _) inside
  exact right _ still (reading false) (List.prefix_refl _) (.inr rfl) centre

/-- The first measurement of the IMU in the centre sets nothing, although its magnetometer is not corrupt. -/
theorem source_wrong :
    ((run (fun v => v) true false []).update (fun v => v) still (.rawUpdate (reading false))).2 = (still, []) ∧
    ¬ Estimates (fun v => v) true false [] still (reading false) := by
  have centre : delivered false ([] ++ [(still, .rawUpdate (reading false))]) ≠ [] := List.cons_ne_nil _ _
  refine ⟨rfl, fun right => ?_⟩
  exact (estimates_iff [] (.inr rfl) centre).mp right rfl

end Tortuga.ImuEstimation
