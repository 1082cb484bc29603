import Tortuga.Machines
import Tortuga.Thrusters
import Mathlib.Algebra.CharZero.Defs
import Mathlib.LinearAlgebra.Matrix.Defs
import Mathlib.Tactic.LinearCombination
import Mathlib.Tactic.Ring

/-!
What the thrusters of the vehicle give together (`Vehicle.cpp`): the force and the torque that were
asked for, when each thruster pushes along the axis that the matrix has for it, and the extra thruster
pushes through the center.
-/
namespace Tortuga.ThrusterAllocation
open Tortuga.Machines
open Tortuga.Thrusters

section
variable {R : Type} [Field R]

/-- A force of one, in a direction at a location, gives this force and this torque. -/
def wrench (location direction : Vector3 R) : Index → R := controlSignal direction (location.crossProduct direction)

/-- What the extra thruster gives. -/
def extra (v : Vehicle R) (i : Index) : R := if v.extraThrustOn then v.force * wrench v.extraLocation v.extraDirection i else 0

/-- The force and the torque that the thrusters give, with the extra thruster. -/
def net (v : Vehicle R) (ts : Place → SBThruster R) (i : Index) : R :=
  ∑ p, (ts p).force * wrench (ts p).location (ts p).direction i + extra v i

/-- The vehicle gives a force and a torque. -/
def Gives (v : Vehicle R) (force torque : Vector3 R) : Prop :=
  ∃ ts, v.thrusters = some ts ∧ ∀ i, net v ts i = controlSignal force torque i

/-- The axis along which the matrix has a thruster push. -/
def axis : Place → Vector3 R
  | .prt | .str => ⟨1, 0, 0⟩
  | .top | .bot => ⟨0, 1, 0⟩
  | .fore | .aft => ⟨0, 0, 1⟩

/-- One matrix is the inverse of another. -/
def Inverts (B : Matrix Place Index R) (A : Matrix Index Place R) : Prop := B * A = 1 ∧ A * B = 1

def placement (ts : Place → SBThruster R) : Matrix Index Place R := thrusterMatrix (fun p => (ts p).location) fun p => (ts p).direction

variable {inverse : Matrix Index Place R → Matrix Place Index R} {truncate : R → ℤ} {v : Vehicle R} {ts : Place → SBThruster R}

/-- The matrix has the torque of each thruster, and the force along its axis. -/
theorem placement_apply (i : Index) (p : Place) : placement ts i p = controlSignal (axis p) ((ts p).location.crossProduct (ts p).direction) i := by
  cases i <;> cases p <;> rfl

theorem placement_wrench {p : Place} : (∀ i, placement ts i p = wrench (ts p).location (ts p).direction i) ↔ (ts p).direction = axis p := by
  constructor
  · intro same
    have x := same .fx
    have y := same .fy
    have z := same .fz
    rw [placement_apply] at x y z
    exact Vector3.ext_iff.mpr ⟨x.symm, y.symm, z.symm⟩
  · intro along i
    rw [placement_apply, wrench, ← along]

omit [Field R] in
/-- A force and a torque are six numbers. -/
theorem signal_surjective (c : Index → R) : controlSignal ⟨c .fx, c .fy, c .fz⟩ ⟨c .tx, c .ty, c .tz⟩ = c := by
  funext i
  cases i <;> rfl

/-- The vehicle has its thrusters where they are, and no other matrix than theirs. -/
structure Ready (inverse : Matrix Index Place R → Matrix Place Index R) (ts : Place → SBThruster R) (v : Vehicle R) : Prop where
  found : ∃ ts', v.thrusters = some ts' ∧ ∀ p, (ts' p).location = (ts p).location ∧ (ts' p).direction = (ts p).direction
  matrix : ∀ m, v.controlSignalToThrusterForces = some m → m = inverse (placement ts)

/-- The forces that the thrusters are given. -/
def forces (inverse : Matrix Index Place R → Matrix Place Index R) (ts : Place → SBThruster R) (v : Vehicle R) (force torque : Vector3 R) :
    Place → R :=
  (inverse (placement ts)).mulVec fun i => controlSignal force torque i - v.extraThruster i

omit [Field R] in
theorem thrusters_some {devices : Place → SBThruster R} (same : v.devices = fun p => some (devices p)) : v.thrusters = some devices := by
  have all : ∀ p, (v.devices p).isSome := by
    intro p
    rw [same]
    rfl
  rw [Vehicle.thrusters, dif_pos all]
  simp [same]

theorem placement_same {ts' : Place → SBThruster R} (same : ∀ p, (ts' p).location = (ts p).location ∧ (ts' p).direction = (ts p).direction) :
    placement ts' = placement ts := by
  funext i p
  rw [placement_apply, placement_apply, (same p).1, (same p).2]

/-- What `applyForcesAndTorques` does when it has all thrusters. -/
theorem apply_spec (truncate : R → ℤ) (ready : Ready inverse ts v) (force torque : Vector3 R) :
    ∃ ts', v.thrusters = some ts' ∧ (∀ p, (ts' p).location = (ts p).location ∧ (ts' p).direction = (ts p).direction) ∧
      v.applyForcesAndTorques inverse truncate force torque =
        { v with
          controlSignalToThrusterForces := some (inverse (placement ts))
          devices := fun p => some ((ts' p).setForce truncate (forces inverse ts v force torque p)) } := by
  obtain ⟨ts', found, same⟩ := ready.found
  refine ⟨ts', found, same, ?_⟩
  have matrix : v.controlSignalToThrusterForces.getD (inverse (placement ts')) = inverse (placement ts) := by
    rw [placement_same same]
    cases made : v.controlSignalToThrusterForces with
    | none => rfl
    | some m => exact ready.matrix m made
  rw [Vehicle.applyForcesAndTorques, found]
  rw [placement] at matrix
  simp only [matrix]
  rfl

theorem Ready.next (ready : Ready inverse ts v) (call : Call R) : Ready inverse ts (next inverse truncate v call) := by
  cases call with
  | setExtraThruster speed => exact ⟨ready.found, ready.matrix⟩
  | applyForcesAndTorques force torque =>
    obtain ⟨ts', _, same, after⟩ := apply_spec truncate ready force torque
    rw [Thrusters.next, after]
    exact ⟨⟨_, thrusters_some rfl, fun p => same p⟩, fun m made => (Option.some_inj.mp made).symm⟩

theorem Ready.after (ready : Ready inverse ts v) (calls : List (Call R)) : Ready inverse ts (after (Thrusters.next inverse truncate) v calls) := by
  induction calls generalizing v with
  | nil => exact ready
  | cons call rest ih => exact ih (ready.next call)

/-- What the thrusters give after a call, the extra one included. -/
theorem gives_iff (ready : Ready inverse ts v) (force torque : Vector3 R) :
    Gives (v.applyForcesAndTorques inverse truncate force torque) force torque ↔
    ∀ i, ∑ p, forces inverse ts v force torque p * wrench (ts p).location (ts p).direction i + extra v i =
      controlSignal force torque i := by
  obtain ⟨ts', _, same, after⟩ := apply_spec truncate ready force torque
  rw [Gives, after]
  generalize rest : ({ v with
    controlSignalToThrusterForces := some (inverse (placement ts))
    devices := fun p => some ((ts' p).setForce truncate (forces inverse ts v force torque p)) } : Vehicle R) = v'
  have found : v'.thrusters = some fun p => (ts' p).setForce truncate (forces inverse ts v force torque p) :=
    thrusters_some (by rw [← rest])
  have each : ∀ i, net v' (fun p => (ts' p).setForce truncate (forces inverse ts v force torque p)) i =
      ∑ p, forces inverse ts v force torque p * wrench (ts p).location (ts p).direction i + extra v i := by
    intro i
    rw [← rest]
    simp only [net, SBThruster.setForce]
    congr 1
    refine Finset.sum_congr rfl fun p _ => ?_
    rw [(same p).1, (same p).2]
  constructor
  · rintro ⟨us, there, gives⟩ i
    obtain rfl := Option.some_inj.mp (found.symm.trans there)
    rw [← each]
    exact gives i
  · exact fun gives => ⟨_, found, fun i => (each i).trans (gives i)⟩

/-- The forces are those that the matrix maps to what is asked for, less the extra thruster. -/
theorem forces_sum (inverts : Inverts (inverse (placement ts)) (placement ts)) (force torque : Vector3 R) (i : Index) :
    ∑ p, forces inverse ts v force torque p * placement ts i p = controlSignal force torque i - v.extraThruster i := by
  have back : (placement ts).mulVec (forces inverse ts v force torque) = fun i => controlSignal force torque i - v.extraThruster i := by
    rw [forces, Matrix.mulVec_mulVec, inverts.2, Matrix.one_mulVec]
  rw [← congrFun back i]
  exact Finset.sum_congr rfl fun p _ => mul_comm _ _

/-- Any forces are given for some force and torque. -/
theorem forces_surjective (inverts : Inverts (inverse (placement ts)) (placement ts)) (g : Place → R) :
    ∃ force torque, forces inverse ts v force torque = g ∧
      ∀ i, controlSignal force torque i = ∑ p, g p * placement ts i p + v.extraThruster i := by
  let c : Index → R := fun i => ∑ p, g p * placement ts i p + v.extraThruster i
  refine ⟨⟨c .fx, c .fy, c .fz⟩, ⟨c .tx, c .ty, c .tz⟩, ?_, fun i => congrFun (signal_surjective c) i⟩
  have less : (fun i => c i - v.extraThruster i) = (placement ts).mulVec g := by
    funext i
    rw [add_sub_cancel_right]
    exact Finset.sum_congr rfl fun p _ => mul_comm _ _
  rw [forces, signal_surjective, less, Matrix.mulVec_mulVec, inverts.1, Matrix.one_mulVec]

/-- An extra thruster that is on pushes through the center. -/
def Centered (v : Vehicle R) : Prop := v.extraThrustOn = true → (v.extraDirection.scale v.force).crossProduct v.extraLocation = ⟨0, 0, 0⟩

/-- The extra thruster gives what is taken off for it just when it pushes through the center: the torque is taken off the other way round. -/
theorem extra_iff [CharZero R] : (∀ i, extra v i = v.extraThruster i) ↔ Centered v := by
  rw [Centered]
  by_cases on : v.extraThrustOn = true
  · have left : ∀ i, extra v i = v.force * wrench v.extraLocation v.extraDirection i := fun i => if_pos on
    have right : v.extraThruster = controlSignal (v.extraDirection.scale v.force) ((v.extraDirection.scale v.force).crossProduct v.extraLocation) :=
      if_pos on
    simp only [left, right, on, forall_const]
    constructor
    · intro same
      have x := same .tx
      have y := same .ty
      have z := same .tz
      simp only [wrench, controlSignal, Vector3.crossProduct, Vector3.scale] at x y z
      ext
      · simp only [Vector3.crossProduct, Vector3.scale]
        linear_combination -(1 / 2 : R) * x
      · simp only [Vector3.crossProduct, Vector3.scale]
        linear_combination -(1 / 2 : R) * y
      · simp only [Vector3.crossProduct, Vector3.scale]
        linear_combination -(1 / 2 : R) * z
    · intro none
      have x := congrArg Vector3.x none
      have y := congrArg Vector3.y none
      have z := congrArg Vector3.z none
      simp only [Vector3.crossProduct, Vector3.scale] at x y z
      intro i
      cases i with
      | fx | fy | fz => rfl
      | tx =>
        simp only [wrench, controlSignal, Vector3.crossProduct, Vector3.scale]
        linear_combination (-2 : R) * x
      | ty =>
        simp only [wrench, controlSignal, Vector3.crossProduct, Vector3.scale]
        linear_combination (-2 : R) * y
      | tz =>
        simp only [wrench, controlSignal, Vector3.crossProduct, Vector3.scale]
        linear_combination (-2 : R) * z
  · simp [extra, Vehicle.extraThruster, on]

end

/-! ### Thrusters of the vehicle -/

theorem inverts_of {A : Matrix Index Place ℚ} {B : Matrix Place Index ℚ} (left : ∀ p q, ∑ i, B p i * A i q = if p = q then 1 else 0)
    (right : ∀ i j, ∑ p, A i p * B p j = if i = j then 1 else 0) : Inverts B A := by
  constructor
  · ext p q
    rw [Matrix.mul_apply, left, Matrix.one_apply]
  · ext i j
    rw [Matrix.mul_apply, right, Matrix.one_apply]

/-- Towards zero. -/
def truncated (r : ℚ) : ℤ := r.num.tdiv r.den

/-- A thruster at a location, with or without a direction in the configuration. -/
def configured (name : String) (location : Vector3 ℚ) (direction : Vector3 (Option ℚ)) : SBThruster ℚ :=
  .create ⟨name.toList, 0, 25, ⟨some location.x, some location.y, some location.z⟩, direction⟩

/-- Thrusters around the center, each with the direction that is given for it. -/
def six (direction : Place → Vector3 (Option ℚ)) : Place → SBThruster ℚ
  | .prt => configured "PortThruster" ⟨0, -1 / 5, 0⟩ (direction .prt)
  | .str => configured "StarboardThruster" ⟨0, 1 / 5, 0⟩ (direction .str)
  | .top => configured "TopThruster" ⟨0, 0, -1 / 5⟩ (direction .top)
  | .fore => configured "ForeThruster" ⟨2 / 5, 0, 0⟩ (direction .fore)
  | .bot => configured "BottomThruster" ⟨0, 0, 1 / 10⟩ (direction .bot)
  | .aft => configured "AftThruster" ⟨-2 / 5, 0, 0⟩ (direction .aft)

/-- The vehicle with these thrusters, and an extra thruster ahead. -/
def vehicle (ts : Place → SBThruster ℚ) : Vehicle ℚ := ⟨fun p => some (ts p), ⟨1, 0, 0⟩, ⟨1, 0, 0⟩, 3, false, none⟩

/-- Each thruster along its axis. -/
def along : Place → SBThruster ℚ := six fun p => ⟨some (axis p).x, some (axis p).y, some (axis p).z⟩

def alongInverse : Matrix Place Index ℚ
  | .prt, .fx => 1 / 2
  | .prt, .tz => 5 / 2
  | .str, .fx => 1 / 2
  | .str, .tz => -5 / 2
  | .top, .fy => 1 / 3
  | .top, .tx => 10 / 3
  | .bot, .fy => 2 / 3
  | .bot, .tx => -10 / 3
  | .fore, .fz => 1 / 2
  | .fore, .ty => -5 / 4
  | .aft, .fz => 1 / 2
  | .aft, .ty => 5 / 4
  | _, _ => 0

theorem along_inverts : Inverts alongInverse (placement along) := inverts_of (by decide +kernel) (by decide +kernel)

/-- Each thruster in its default direction. -/
def byDefault : Place → SBThruster ℚ := six fun _ => ⟨none, none, none⟩

def byDefaultInverse : Matrix Place Index ℚ
  | .prt, .fx => 1 / 2
  | .prt, .tz => -5 / 2
  | .str, .fx => 1 / 2
  | .str, .tz => 5 / 2
  | .top, .fy => -1
  | .top, .tx => 10
  | .bot, .fy => 2
  | .bot, .tx => -10
  | .fore, .fz => 1 / 2
  | .fore, .ty => 5 / 4
  | .aft, .fz => 1 / 2
  | .aft, .ty => -5 / 4
  | _, _ => 0

theorem byDefault_inverts : Inverts byDefaultInverse (placement byDefault) := inverts_of (by decide +kernel) (by decide +kernel)

end Tortuga.ThrusterAllocation
