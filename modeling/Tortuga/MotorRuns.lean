import Tortuga.MotorLink

/-!
Runs of the master against the motor board: when a kill command stops the motors, and
when the bytes of a speed frame are taken for commands.
-/
namespace Tortuga.MotorRuns
open Tortuga.Programs Tortuga.BusCodes Tortuga.Master Tortuga.Commands Tortuga.CommandRules Tortuga.MotorBoard
open Tortuga.MotorLink
set_option linter.unusedSimpArgs false

/-- The link with no assumption and nothing to show. -/
def link : Monitor Op Ans Loop Interrupt Link := watch (fun _ _ => True) (fun _ _ => True)

theorem watch_along {allows demands P : Link → MasterEvent → Prop} {s : Link} {tr : List MasterEvent} :
    (watch allows demands).Along P s tr ↔ link.Along P s tr := by
  induction tr generalizing s with
  | nil => exact Iff.rfl
  | cons e tr ih => exact and_congr Iff.rfl ih

/-- A quiet event changes neither board nor frame. -/
theorem next_quiet {s : Link} {e : MasterEvent} (quiet : Quiet e) :
    s.next e = { s with host := (s.next e).host, cleared := (s.next e).cleared } := by
  unfold Link.next
  split
  case h_1 => rw [if_neg quiet]
  all_goals rfl

theorem next_wellFormed {s : Link} (e : MasterEvent) (wf : WellFormed s.motor) : WellFormed (s.next e).motor := by
  unfold Link.next
  split
  case h_1 data req a =>
    split
    · unfold Link.write
      split <;> exact feed_wellFormed data a wf
    · exact wf
  all_goals exact wf

theorem plain_params : ∀ data ∈ busCmdKillMotors :: plainCmds, paramsOf data = 0 ∧ ∀ a, follows data a = 0 := by
  have others : ∀ data ∈ busCmdKillMotors :: plainCmds,
      paramsOf data = 0 ∧ data ≠ busCmdSetMotSpeeds ∧ data ≠ busCmdSetDerpy := by decide
  intro data member
  obtain ⟨none, notSpeeds, notDerpy⟩ := others data member
  exact ⟨none, fun a => by rw [follows, if_neg notSpeeds, if_neg (by simp [notDerpy])]⟩

theorem actuator_params {data : Byte} {host : List Byte} (member : (data, host) ∈ actuatorFrames) :
    paramsOf data = 0 ∧ ∀ a, follows data a = 0 := by
  have others : ∀ p ∈ actuatorFrames, paramsOf p.1 = 0 ∧ p.1 ≠ busCmdSetMotSpeeds ∧ p.1 ≠ busCmdSetDerpy := by decide
  obtain ⟨none, notSpeeds, notDerpy⟩ := others _ member
  exact ⟨none, fun a => by rw [follows, if_neg notSpeeds, if_neg (by simp [notDerpy])]⟩

theorem write_command {s : Link} (data : Byte) (a : WriteAnswer) (zero : s.left = 0) : s.write data a =
    { s with
      motor := feed data a s.motor, cmd := data, left := follows data a, waiting := pending s.motor
      cmdTaken := a.taken, taken := 0, cleared := false } := by
  rw [Link.write, zero]

theorem write_param {s : Link} {n : ℕ} (data : Byte) (a : WriteAnswer) (more : s.left = n + 1) : s.write data a =
    { s with motor := feed data a s.motor, left := n, taken := s.taken + a.taken.toNat, cleared := false } := by
  rw [Link.write, more]

/-! ### Kill commands -/

/-- `checkFailsafe` sends the kill command, and the motor board takes it. The command is
    the write that comes right after the flag is cleared. -/
def Kill (s : Link) (data : Byte) (a : WriteAnswer) : Prop :=
  s.cleared = true ∧ data = busCmdKillMotors ∧ a.taken = true

instance (s : Link) (data : Byte) (a : WriteAnswer) : Decidable (Kill s data a) := inferInstanceAs (Decidable (_ ∧ _))

/-- A kill command leaves all motors neutral. -/
def Obeyed (s : Link) : MasterEvent → Prop := OnMotor fun data a => Kill s data a → Neutral (s.write data a).motor

/-- A kill command finds a parser that heeds it. -/
def Heeded (s : Link) : MasterEvent → Prop := OnMotor fun data a => Kill s data a → Heeds s.motor

/-- No byte of a frame with parameters is lost on its way to the motor board. -/
def Whole (s : Link) : MasterEvent → Prop :=
  OnMotor fun data a => 0 < s.left ∨ data = busCmdSetMotSpeeds ∨ data = busCmdSetDerpy → a = .delivered

instance (s : Link) (e : MasterEvent) : Decidable (Whole s e) :=
  inferInstanceAs (Decidable (OnMotor (fun data a => _ ∨ data = _ ∨ data = _ → a = _) e))

theorem write_motor (data : Byte) (a : WriteAnswer) (s : Link) : (s.write data a).motor = feed data a s.motor := by
  unfold Link.write
  split <;> rfl

theorem obeys_iff {s : Link} {data : Byte} {a : WriteAnswer} (wf : WellFormed s.motor) (kill : Kill s data a) :
    Neutral (s.write data a).motor ↔ Heeds s.motor := by
  obtain ⟨-, rfl, taken⟩ := kill
  rw [write_motor, feed, if_pos taken]
  exact killed_iff wf

theorem obeyed_iff {s : Link} (e : MasterEvent) (wf : WellFormed s.motor) : Obeyed s e ↔ Heeded s e := by
  unfold Obeyed Heeded OnMotor
  split
  · exact imp_congr_right (fun _ => imp_congr_right (fun kill => obeys_iff wf kill))
  · exact Iff.rfl

/-- The parser waits for the parameters that the master still writes. -/
structure InStep (n : ℕ) (s : Link) : Prop where
  wf : WellFormed s.motor
  left : s.left = n
  waits : pending s.motor = n
  busy : 0 < n → s.cleared = false

theorem InStep.obeys {s : Link} (inv : InStep 0 s) (data : Byte) (a : WriteAnswer) (kill : Kill s data a) :
    Neutral (s.write data a).motor := by
  rw [obeys_iff inv.wf kill, Heeds, (pending_eq_zero inv.wf).mp inv.waits]
  trivial

theorem InStep.command {s : Link} {data : Byte} (a : WriteAnswer) (none : paramsOf data = 0)
    (noneFollows : ∀ a, follows data a = 0) (inv : InStep 0 s) : InStep 0 (s.write data a) := by
  have waits : pending (feed data a s.motor) = 0 := by
    rw [pending_feed data a inv.wf, inv.waits, none]
    simp
  rw [write_command data a inv.left]
  exact ⟨feed_wellFormed data a inv.wf, noneFollows a, waits, fun _ => rfl⟩

theorem inStep_rules : FrameRules (watch Whole Obeyed) InStep where
  next := rfl
  faults _ := trivial
  quiet := by
    intro s e quiet inv _
    refine ⟨.of_quiet quiet, ?_⟩
    rw [next_quiet quiet]
    exact ⟨inv.wf, inv.left, inv.waits, fun more => absurd more (Nat.lt_irrefl 0)⟩
  plain := by
    intro s data a kind inv _
    obtain ⟨none, noneFollows⟩ := plain_params data (List.mem_cons.mpr kind)
    exact ⟨fun _ => inv.obeys _ _, inv.command a none noneFollows⟩
  actuator := by
    intro s data a frame inv _
    obtain ⟨none, noneFollows⟩ := actuator_params frame
    exact ⟨fun _ => inv.obeys _ _, inv.command a none noneFollows⟩
  begins := by
    intro s data a kind inv whole
    obtain rfl : a = .delivered := whole rfl (.inr kind)
    have waits : pending (feed data .delivered s.motor) = follows data .delivered := by
      rw [pending_feed data _ inv.wf, inv.waits]
      rcases kind with rfl | rfl <;> rfl
    rw [write_command data _ inv.left]
    exact ⟨fun _ => inv.obeys _ _, feed_wellFormed data .delivered inv.wf, rfl, waits, fun _ => rfl⟩
  param := by
    intro n s data a inv whole
    obtain rfl : a = .delivered := whole rfl (.inl (by rw [inv.left]; omega))
    have waits : pending (feed data .delivered s.motor) = n := by
      rw [pending_feed data _ inv.wf, inv.waits]
      simp [WriteAnswer.taken]
    have idle : ¬ s.cleared = true := by simp [inv.busy (Nat.succ_pos n)]
    rw [write_param data _ inv.left]
    exact ⟨fun _ kill => absurd kill.1 idle, feed_wellFormed data .delivered inv.wf, rfl, waits, fun _ => rfl⟩

theorem start_inStep : InStep 0 start := ⟨initial_wellFormed, rfl, rfl, fun more => absurd more (Nat.lt_irrefl 0)⟩

/-- In every run of the master, every kill command is obeyed if and only if each finds a
    parser that heeds it. All are obeyed when no byte of a frame with parameters is lost. -/
theorem kills_obeyed (m : Mem) (tr : List MasterEvent) (q : Io Empty) (run : Run (commandLoop m) tr q) :
    (link.Along Obeyed start tr ↔ link.Along Heeded start tr) ∧
      (link.Along Whole start tr → link.Along Obeyed start tr) := by
  refine ⟨link.along_congr (I := fun s : Link => WellFormed s.motor) (fun s e wf => next_wellFormed e wf)
    (fun s e wf => obeyed_iff e wf) initial_wellFormed tr, fun whole => ?_⟩
  have shown := (inStep_rules.commandLoop m).run start_inStep run (watch_along.mpr whole)
  exact link.along_mono (fun _ _ => OnMotor.of_own) (watch_along.mp shown)

/-- A frame with the speeds `params` arrives. -/
def speedFrame (params : List Byte) : List MasterEvent :=
  .iter .command :: arrive [hostCmdSetspeed] ++
    [.call .usbPresent true, .call .clearFailsafe (), .call .startTimer ()] ++ arrive params

/-- A frame of zero speeds, the end of which meets `last`; then the failsafe trips. -/
def tripAfter (last : WriteAnswer) (reply : Byte) : List MasterEvent :=
  speedFrame (List.replicate 12 0 ++ [hostCmdSetspeed]) ++
    writes slaveIdMotor .delivered (busCmdSetMotSpeeds :: List.replicate 5 0x80#8) ++
    writes slaveIdMotor last [0x80#8] ++
    writes slaveIdThrusters .delivered (busCmdMotrspeeds :: List.replicate 6 0) ++
    [.call (.sendByte reply) (), .iter .command, .ext .t1, .call .readFailsafe true, .call .clearFailsafe ()] ++
    writes slaveIdMotor .delivered [busCmdKillMotors]

theorem kills_obeyed_whole : link.Along Obeyed start (tripAfter .delivered hostReplySuccess) := by
  obtain ⟨q, run⟩ := run_of_follow (commandLoop memory) (tripAfter .delivered hostReplySuccess) (by decide +kernel)
  exact (kills_obeyed memory _ q run).2 (by decide +kernel)

/-- The kill command of the failsafe ends a cut frame instead: motor 5 runs on. -/
theorem kill_swallowed : ∃ tr q, Run (commandLoop memory) tr q ∧ flag.Along ReadsFlag false tr ∧
    ¬ link.Along Obeyed start tr := by
  obtain ⟨q, run⟩ := run_of_follow (commandLoop memory) (tripAfter .noAck hostReplyFailure) (by decide +kernel)
  refine ⟨_, q, run, by decide +kernel, fun along => ?_⟩
  have obeyed := link.along_at along
  have neutral := obeyed rfl ⟨by decide +kernel, rfl, rfl⟩ 5 (by decide)
  exact absurd neutral (by decide +kernel)

/-! ### Speed bytes -/

/-- The parameters that the parser waits for after the command of the frame: those of the
    command, unless it was lost or was itself taken for a parameter. -/
def room (s : Link) : ℕ :=
  if s.cmdTaken then (if s.waiting = 0 then paramsOf s.cmd else s.waiting - 1) else s.waiting

/-- The motor board takes no more parameters of a frame than it waits for. One too many
    after `SET_DERPY` is no code of an actuator. -/
def Fits (s : Link) : MasterEvent → Prop :=
  OnMotor fun data a => a.taken = true → 0 < s.left →
    s.taken < room s ∨ (s.cmd = busCmdSetDerpy ∧ data ∉ forwardedCmds)

instance (s : Link) (e : MasterEvent) : Decidable (Fits s e) :=
  inferInstanceAs (Decidable (OnMotor (fun data _ => _ → _ → _ ∨ (_ ∧ data ∉ _)) e))

/-- A byte that the motor board takes is not read as a command when it is a parameter of
    `BUS_CMD_SET_MOT_SPEEDS`, and what it makes the board pass on to the pneumatics is the
    command that the host has just asked for by a frame of its own. -/
def Safe (s : Link) : MasterEvent → Prop :=
  OnMotor fun data a => a.taken = true →
    (0 < s.left → s.cmd = busCmdSetMotSpeeds → s.motor.busState ≠ .topLevel) ∧
      ∀ c, forwarded data s.motor = some c → (c, s.host) ∈ actuatorFrames

/-- The parser waits for what the losses so far leave room for. -/
structure Counted (n : ℕ) (s : Link) : Prop where
  wf : WellFormed s.motor
  left : s.left = n
  one : s.cmd = busCmdSetDerpy → n ≤ 1
  waits : 0 < n → pending s.motor + s.taken = room s

theorem forwarded_some {s : Motor} {data c : Byte} (wf : WellFormed s) (found : forwarded data s = some c) :
    c = data ∧ s.busState = .topLevel ∧ data ∈ forwardedCmds := by
  rw [forwarded_eq data wf] at found
  split at found
  case isTrue top => exact ⟨(Option.some.inj found).symm, top⟩
  case isFalse => contradiction

/-- A command that is written between frames. -/
theorem Counted.command {s : Link} (data : Byte) (a : WriteAnswer) (inv : Counted 0 s) :
    Counted (follows data a) (s.write data a) := by
  rw [write_command data a inv.left]
  refine ⟨feed_wellFormed data a inv.wf, rfl, ?_, fun _ => ?_⟩
  · rintro rfl
    rw [follows, if_neg (by decide)]
    split <;> decide
  · simp only [room, pending_feed data a inv.wf, Nat.add_zero]

theorem Counted.param {n : ℕ} {s : Link} {data : Byte} {a : WriteAnswer} (inv : Counted (n + 1) s)
    (fits : a.taken = true → 0 < s.left → s.taken < room s ∨ (s.cmd = busCmdSetDerpy ∧ data ∉ forwardedCmds)) :
    Counted n (s.write data a) := by
  have waits := inv.waits (Nat.succ_pos n)
  rw [write_param data a inv.left]
  refine ⟨feed_wellFormed data a inv.wf, rfl, fun derpy => by have := inv.one derpy; omega, fun more => ?_⟩
  have notDerpy : s.cmd ≠ busCmdSetDerpy := fun derpy => by have := inv.one derpy; omega
  show pending (feed data a s.motor) + (s.taken + a.taken.toNat) = room s
  rw [pending_feed data a inv.wf]
  cases taken : a.taken with
  | false => simpa using waits
  | true =>
    rcases fits taken (by rw [inv.left]; omega) with below | ⟨derpy, -⟩
    · rw [if_pos rfl, if_neg (by omega), Bool.toNat_true]
      omega
    · exact absurd derpy notDerpy

theorem counted_rules : FrameRules (watch Fits Safe) Counted where
  next := rfl
  faults _ := trivial
  quiet := by
    intro s e quiet inv _
    refine ⟨.of_quiet quiet, ?_⟩
    rw [next_quiet quiet]
    exact ⟨inv.wf, inv.left, inv.one, fun more => absurd more (Nat.lt_irrefl 0)⟩
  plain := by
    intro s data a kind inv _
    have silent : ∀ data ∈ busCmdKillMotors :: plainCmds, data ∉ forwardedCmds := by decide
    have kept := inv.command data a
    rw [(plain_params data (List.mem_cons.mpr kind)).2 a] at kept
    refine ⟨fun _ _ => ⟨fun more => absurd inv.left (Nat.ne_of_gt more), fun c found => ?_⟩, kept⟩
    exact absurd (forwarded_some inv.wf found).2.2 (silent data (List.mem_cons.mpr kind))
  actuator := by
    intro s data a frame inv _
    have kept := inv.command data a
    rw [(actuator_params frame).2 a] at kept
    refine ⟨fun _ _ => ⟨fun more => absurd inv.left (Nat.ne_of_gt more), fun c found => ?_⟩, kept⟩
    rw [(forwarded_some inv.wf found).1]
    exact frame
  begins := by
    intro s data a kind inv _
    refine ⟨fun _ _ => ⟨fun more => absurd inv.left (Nat.ne_of_gt more), fun c found => ?_⟩, inv.command data a⟩
    have member := (forwarded_some inv.wf found).2.2
    rcases kind with rfl | rfl
    · exact absurd member (by decide)
    · exact absurd member (by decide)
  param := by
    intro n s data a inv fits
    have waits := inv.waits (Nat.succ_pos n)
    refine ⟨fun _ taken => ?_, inv.param (fits rfl)⟩
    have more : 0 < s.left := by rw [inv.left]; omega
    rcases fits rfl taken more with below | ⟨derpy, silent⟩
    · have inside : s.motor.busState ≠ .topLevel := fun top => by
        have := (pending_eq_zero inv.wf).mpr top
        omega
      exact ⟨fun _ _ => inside, fun c found => absurd (forwarded_some inv.wf found).2.1 inside⟩
    · refine ⟨fun _ speeds => absurd (speeds.symm.trans derpy) (by decide), fun c found => ?_⟩
      exact absurd (forwarded_some inv.wf found).2.2 silent

/-- In every run of the master in which the parameters that get across fit, no parameter
    is taken for a command and every actuator command comes from a frame of the host. -/
theorem speeds_never_commands (m : Mem) (tr : List MasterEvent) (q : Io Empty) (run : Run (commandLoop m) tr q)
    (fits : link.Along Fits start tr) : link.Along Safe start tr := by
  have inv : Counted 0 start := ⟨initial_wellFormed, rfl, fun _ => by omega, fun more => absurd more (Nat.lt_irrefl 0)⟩
  have shown := (counted_rules.commandLoop m).run inv run (watch_along.mpr fits)
  exact link.along_mono (fun _ _ => OnMotor.of_own) (watch_along.mp shown)

/-- The first motor byte of a frame whose first speed is -350. -/
def misfire (command : WriteAnswer) : List MasterEvent :=
  speedFrame ([0xFE#8, 0xA2#8] ++ List.replicate 10 0 ++ [0xB2#8]) ++
    writes slaveIdMotor command [busCmdSetMotSpeeds] ++ writes slaveIdMotor .delivered [busCmdFireTorp1]

theorem speeds_never_commands_whole : link.Along Safe start (misfire .delivered) := by
  obtain ⟨q, run⟩ := run_of_follow (commandLoop memory) (misfire .delivered) (by decide +kernel)
  exact speeds_never_commands memory _ q run (by decide +kernel)

/-- When the command of the frame is lost, the speed -350 fires a torpedo. -/
theorem speed_fires : ∃ tr q, Run (commandLoop memory) tr q ∧ flag.Along ReadsFlag false tr ∧
    ¬ link.Along Safe start tr := by
  obtain ⟨q, run⟩ := run_of_follow (commandLoop memory) (misfire .noAck) (by decide +kernel)
  refine ⟨_, q, run, by decide +kernel, fun along => ?_⟩
  have safe := link.along_at along
  have asked := (safe rfl rfl).2 busCmdFireTorp1 (by decide +kernel)
  exact absurd asked (by decide +kernel)

end Tortuga.MotorRuns
