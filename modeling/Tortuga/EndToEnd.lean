import Tortuga.HostBoard
import Mathlib.Data.List.OfFn

/-!
Six speeds from the host to the motors and the power board: a frame of `setSpeeds`, as
the master takes it.
-/
namespace Tortuga.EndToEnd
open Tortuga.Programs Tortuga.BusCodes Tortuga.Master Tortuga.Commands
open Tortuga.SensorApi (speedBytes Host)
open Tortuga.Speeds Tortuga.HostBoard
set_option linter.unusedSimpArgs false

/-! ### Steps of the master -/

variable (m : Mem)

@[simp] theorem exec_countErr (t : Wire) : exec answer 1 (countErr 0 m) t = some (((), m), t) := rfl

/-- The motor bytes of the speeds from `rxBuf[i]` on, `count` of them. -/
def motorWrites (i count : ℕ) : List (Byte × Byte) :=
  (List.range' i count 2).map fun j => (convertSpeed (m.rxBuf j) (m.rxBuf (j + 1)), slaveIdMotor)

/-- The bytes of the power board for the speeds from number `i` on, `count` of them. -/
def distroWrites (i count : ℕ) : List (Byte × Byte) :=
  (List.range' i count).map fun j => (distroSpeed (m.rxBuf (2 * j)) (m.rxBuf (2 * j + 1)), slaveIdThrusters)

theorem exec_sendSpeeds (i count : ℕ) (t : Wire) : exec answer 1 (sendSpeeds i count m) t =
    some (((), m), { t with written := t.written ++ motorWrites m i count }) := by
  induction count generalizing i t with
  | zero => simp [sendSpeeds, motorWrites]
  | succ count ih =>
    simp only [sendSpeeds_succ, exec_all_bind, exec_lift, exec_write, Option.bind_some, exec_countErr, ih]
    simp [motorWrites, List.range'_succ]

theorem sendDistro_succ (i count : ℕ) : sendDistro i (count + 1) m =
    (do
      let r ← busWriteByte (distroSpeed (m.rxBuf (2 * i)) (m.rxBuf (2 * i + 1))) slaveIdThrusters
      countErr r
      sendDistro (i + 1) count : Main Unit) m := rfl

theorem exec_sendDistro (i count : ℕ) (t : Wire) : exec answer 1 (sendDistro i count m) t =
    some (((), m), { t with written := t.written ++ distroWrites m i count }) := by
  induction count generalizing i t with
  | zero => simp [sendDistro, distroWrites]
  | succ count ih =>
    simp only [sendDistro_succ, exec_all_bind, exec_lift, exec_write, Option.bind_some, exec_countErr, ih]
    simp [distroWrites, List.range'_succ]

/-- The writes of a speed frame whose speeds are in `rxBuf`. -/
def speedWrites : List (Byte × Byte) :=
  (busCmdSetMotSpeeds, slaveIdMotor) :: motorWrites m 0 6 ++ (busCmdMotrspeeds, slaveIdThrusters) :: distroWrites m 0 6

theorem exec_setSpeeds (t : Wire) : exec answer 1 (setSpeeds m) t = some (((), { m with t1 := 0 }),
    { t with written := t.written ++ speedWrites m, replies := t.replies ++ [hostReplySuccess] }) := by
  have motors : motorWrites { m with t1 := 0 } 0 6 = motorWrites m 0 6 := rfl
  have distro : distroWrites { m with t1 := 0 } 0 6 = distroWrites m 0 6 := rfl
  simp only [setSpeeds, setT1, informDistro, exec_all_bind, exec_modify, Option.bind_some, exec_lift, exec_write,
    exec_sendSpeeds, exec_ite, ↓reduceIte, exec_sendDistro, exec_get, exec_send, motors, distro]
  simp [speedWrites]

/-! ### Six speeds -/

/-- The two bytes of each of six speeds. -/
def sixBytes (s : Fin 6 → Int) : List Byte :=
  speedBytes (s 0) ++ speedBytes (s 1) ++ speedBytes (s 2) ++ speedBytes (s 3) ++ speedBytes (s 4) ++ speedBytes (s 5)

/-- `setSpeeds` of the host. -/
def sendSix (s : Fin 6 → Int) : Host Int := SensorApi.setSpeeds (s 0) (s 1) (s 2) (s 3) (s 4) (s 5)

theorem sent_sendSix (s : Fin 6 → Int) : SensorApi.sent (sendSix s) = [sumFrame hostCmdSetspeed (sixBytes s)] :=
  sent_sumFrame hostCmdSetspeed (sixBytes s) (n := 14) rfl

/-- A write for each speed. -/
def each (req : Byte) (bytes : Fin 6 → Byte) : List (Byte × Byte) := List.ofFn fun i => (bytes i, req)

theorem run_sendSix (s : Fin 6 → Int) : runCommand m (sumFrame hostCmdSetspeed (sixBytes s)) =
    some ({ receivedFrame m hostCmdSetspeed (sixBytes s) with t1 := 0 },
      ⟨[], (busCmdSetMotSpeeds, slaveIdMotor) :: each slaveIdMotor (fun i => motorByte (s i)) ++
        (busCmdMotrspeeds, slaveIdThrusters) :: each slaveIdThrusters (fun i => distroByte (s i)),
        [hostReplySuccess]⟩) := by
  rw [sumFrame, runCommand_eq]
  show (exec answer 1 (caseSetspeed m) _).map _ = _
  have sum := receivedFrame_sum m hostCmdSetspeed (sixBytes s) (n := 12) rfl
  have written : speedWrites (receivedFrame m hostCmdSetspeed (sixBytes s)) =
      (busCmdSetMotSpeeds, slaveIdMotor) :: each slaveIdMotor (fun i => motorByte (s i)) ++
        (busCmdMotrspeeds, slaveIdThrusters) :: each slaveIdThrusters (fun i => distroByte (s i)) := rfl
  simp only [caseSetspeed, exec_all_bind, exec_lift, exec_arm, Option.bind_some,
    exec_receiveFrame m hostCmdSetspeed (sixBytes s) (n := 13) rfl (by decide), exec_get, exec_ite, sum, ne_eq,
    not_true_eq_false, ↓reduceIte, exec_setSpeeds, written]
  rfl

/-- The master accepts the frame of six speeds, and its only writes are a motor byte and a
    byte of the power board for each. -/
def Travels (s : Fin 6 → Int) (motor distro : Fin 6 → Byte) : Prop :=
  ∃ frame m', SensorApi.sent (sendSix s) = [frame] ∧ runCommand m frame = some (m',
    ⟨[], (busCmdSetMotSpeeds, slaveIdMotor) :: each slaveIdMotor motor ++
      (busCmdMotrspeeds, slaveIdThrusters) :: each slaveIdThrusters distro, [hostReplySuccess]⟩)

theorem each_injective (req : Byte) : Function.Injective (each req) := by
  intro bytes bytes' same
  funext i
  have pair := congrFun (List.ofFn_injective same) i
  exact congrArg Prod.fst pair

theorem travels_iff (s : Fin 6 → Int) (motor distro : Fin 6 → Byte) :
    Travels m s motor distro ↔ (motor = fun i => motorByte (s i)) ∧ distro = fun i => distroByte (s i) := by
  constructor
  · rintro ⟨frame, m', sends, ran⟩
    rw [sent_sendSix, List.singleton_inj] at sends
    rw [← sends, run_sendSix] at ran
    have written := congrArg Wire.written (congrArg Prod.snd (Option.some_inj.mp ran))
    simp only [List.cons_append, List.cons.injEq, true_and] at written
    obtain ⟨motors, distros⟩ := List.append_inj written (by simp [each])
    exact ⟨(each_injective _ motors).symm, (each_injective _ (List.cons_inj_right _ |>.mp distros)).symm⟩
  · rintro ⟨rfl, rfl⟩
    exact ⟨_, _, sent_sendSix s, run_sendSix m s⟩

/-! ### What arrives -/

/-- No speed is larger than `bound`. -/
def Within (bound : ℕ) (s : Fin 6 → Int) : Prop := ∀ i, (s i).natAbs ≤ bound

/-- What is to hold of the speeds up to `bound`, from the call of the host to the boards. -/
structure Arrive (bound : ℕ) : Prop where
  accepted : ∀ m s, Within bound s → ∃ motor distro, Travels m s motor distro
  good : ∀ m s motor distro, Within bound s → Travels m s motor distro → ∀ i, 0x19#8 ≤ motor i ∧ motor i ≤ 0xE6#8
  motorMono : ∀ m m' s s' motor motor' distro distro', Within bound s → Within bound s' →
    Travels m s motor distro → Travels m' s' motor' distro' → ∀ i, s i ≤ s' i → motor i ≤ motor' i
  distroMono : ∀ m m' s s' motor motor' distro distro', Within bound s → Within bound s' →
    Travels m s motor distro → Travels m' s' motor' distro' → ∀ i, (s i).natAbs ≤ (s' i).natAbs → distro i ≤ distro' i

theorem travels (s : Fin 6 → Int) :
    Travels m s (fun i => motorByte (s i)) (fun i => distroByte (s i)) := (travels_iff m s _ _).mpr ⟨rfl, rfl⟩

variable {m} {m' : Mem} {s s' : Fin 6 → Int} {motor motor' distro distro' : Fin 6 → Byte} {bound : ℕ}

/-- The motor bytes are good at every speed of a thruster. -/
theorem motor_good (small : bound ≤ 1024) (within : Within bound s) (arrived : Travels m s motor distro) (i : Fin 6) :
    0x19#8 ≤ motor i ∧ motor i ≤ 0xE6#8 := by
  obtain ⟨rfl, _⟩ := (travels_iff m s motor distro).mp arrived
  have := within i
  exact motorByte_good (by omega)

/-- The motor bytes are in order at every speed of a thruster. -/
theorem motor_mono (small : bound ≤ 1024) (within : Within bound s) (within' : Within bound s')
    (arrived : Travels m s motor distro) (arrived' : Travels m' s' motor' distro') (i : Fin 6) (le : s i ≤ s' i) :
    motor i ≤ motor' i := by
  obtain ⟨rfl, _⟩ := (travels_iff m s motor distro).mp arrived
  obtain ⟨rfl, _⟩ := (travels_iff m' s' motor' distro').mp arrived'
  have := within i
  have := within' i
  exact motorByte_mono (by omega) (by omega) le

theorem distro_mono (small : bound ≤ 511) (within' : Within bound s') (arrived : Travels m s motor distro)
    (arrived' : Travels m' s' motor' distro') (i : Fin 6) (le : (s i).natAbs ≤ (s' i).natAbs) : distro i ≤ distro' i := by
  obtain ⟨_, rfl⟩ := (travels_iff m s motor distro).mp arrived
  obtain ⟨_, rfl⟩ := (travels_iff m' s' motor' distro').mp arrived'
  have := within' i
  exact distroByte_mono (by omega) le

/-- The byte of the power board starts over at 512. -/
theorem distro_wraps (large : 512 ≤ bound) : ¬ Arrive bound := by
  intro arrive
  have below : Within bound fun _ => 511 := fun _ => by
    show (511 : Int).natAbs ≤ bound
    omega
  have above : Within bound fun _ => 512 := fun _ => by
    show (512 : Int).natAbs ≤ bound
    omega
  have ordered := arrive.distroMono memory memory _ _ _ _ _ _ below above (travels memory _) (travels memory _) 0 (by decide)
  exact absurd ordered (by decide)

/-- Up to 511 the speeds arrive in order, and no further. -/
theorem speeds_arrive (bound : ℕ) : Arrive bound ↔ bound ≤ 511 := by
  constructor
  · intro arrive
    by_contra large
    exact distro_wraps (by omega) arrive
  · intro small
    exact {
      accepted := fun m s _ => ⟨_, _, travels m s⟩
      good := fun _ _ _ _ within arrived => motor_good (by omega) within arrived
      motorMono := fun _ _ _ _ _ _ _ _ within within' arrived arrived' =>
        motor_mono (by omega) within within' arrived arrived'
      distroMono := fun _ _ _ _ _ _ _ _ _ within' arrived arrived' => distro_mono small within' arrived arrived' }

/-- The speeds of a thruster go up to 1024. -/
theorem full_speed_wraps : ¬ Arrive 1024 := distro_wraps (by decide)

end Tortuga.EndToEnd
