import Tortuga.CommandRules
import Tortuga.MotorBoard

/-!
The master and the motor board together. `Link` follows a trace of the master: the motor
board takes every byte that a write gets across, and the frame that the master is in is
kept beside it.
-/
namespace Tortuga.MotorLink
open Tortuga.Programs Tortuga.BusCodes Tortuga.Master Tortuga.Commands Tortuga.CommandRules Tortuga.MotorBoard
set_option linter.unusedSimpArgs false

structure Link where
  motor : Motor
  /-- The bytes of the host since the loop of `main` last came round. -/
  host : List Byte
  /-- The last step of the master was to clear the failsafe flag. -/
  cleared : Bool
  /-- The last command that the master wrote to the motor board. -/
  cmd : Byte
  /-- The parameters of `cmd` that the master still writes. -/
  left : ℕ
  /-- The parameters that the parser waited for when `cmd` was written. -/
  waiting : ℕ
  cmdTaken : Bool
  /-- The parameters of `cmd` that the motor board took. -/
  taken : ℕ

def start : Link where
  motor := initial
  host := []
  cleared := false
  cmd := 0
  left := 0
  waiting := 0
  cmdTaken := false
  taken := 0

/-- The motor board after a write. -/
def feed (data : Byte) (a : WriteAnswer) (s : Motor) : Motor := if a.taken then processData data s else s

/-- The parameters that follow a command of the master: a speed frame is written to its
    end, the frame of `SET_DERPY` ends with a failed command. -/
def follows (data : Byte) (a : WriteAnswer) : ℕ :=
  if data = busCmdSetMotSpeeds then 6 else if data = busCmdSetDerpy ∧ a = .delivered then 1 else 0

/-- A write to the motor board: a command, or a parameter of the last one. -/
def Link.write (data : Byte) (a : WriteAnswer) (s : Link) : Link :=
  match s.left with
  | 0 => { s with
      motor := feed data a s.motor, cmd := data, left := follows data a, waiting := pending s.motor
      cmdTaken := a.taken, taken := 0, cleared := false }
  | left + 1 => { s with motor := feed data a s.motor, left, taken := s.taken + a.taken.toNat, cleared := false }

def Link.next (s : Link) : MasterEvent → Link
  | .call (.busWrite data req) a => if req = slaveIdMotor then s.write data a else { s with cleared := false }
  | .call .rxByte (some b) => { s with host := s.host ++ [b], cleared := false }
  | .call .clearFailsafe _ => { s with cleared := true }
  | .call _ _ => { s with cleared := false }
  | .iter .command => { s with host := [], cleared := false }
  | .iter _ => { s with cleared := false }
  | .ext _ => s

def watch (allows demands : Link → MasterEvent → Prop) : Monitor Op Ans Loop Interrupt Link where
  next := Link.next
  allows := allows
  demands := demands
  faults _ := True

theorem feed_wellFormed {s : Motor} (data : Byte) (a : WriteAnswer) (wf : WellFormed s) : WellFormed (feed data a s) := by
  unfold feed
  split
  · exact processData_wellFormed data wf
  · exact wf

theorem pending_feed {s : Motor} (data : Byte) (a : WriteAnswer) (wf : WellFormed s) :
    pending (feed data a s) =
      if a.taken then (if pending s = 0 then paramsOf data else pending s - 1) else pending s := by
  unfold feed
  split
  · exact pending_processData data wf
  · rfl

theorem write_host (data : Byte) (a : WriteAnswer) (s : Link) : (s.write data a).host = s.host := by
  unfold Link.write
  split <;> rfl

/-! ### Host frames of the actuators -/

/-- The commands of the pneumatics with the frames of the host that ask for them, the
    command repeated or a parameter with its checksum. -/
def actuatorFrames : List (Byte × List Byte) :=
  [(busCmdMarker1, [hostCmdMarker, 0, hostCmdMarker]), (busCmdMarker2, [hostCmdMarker, 1, hostCmdMarker + 1]),
    (busCmdFireTorp1, [hostCmdFireTorp1, hostCmdFireTorp1]), (busCmdFireTorp2, [hostCmdFireTorp2, hostCmdFireTorp2]),
    (busCmdArmTorp1, [hostCmdArmTorp1, hostCmdArmTorp1]), (busCmdArmTorp2, [hostCmdArmTorp2, hostCmdArmTorp2]),
    (busCmdVoidTorp1, [hostCmdVoidTorp1, hostCmdVoidTorp1]), (busCmdVoidTorp2, [hostCmdVoidTorp2, hostCmdVoidTorp2]),
    (busCmdExtGrabber, [hostCmdExtGrabber, hostCmdExtGrabber]),
    (busCmdRetGrabber, [hostCmdRetGrabber, hostCmdRetGrabber]),
    (busCmdVoidGrabber, [hostCmdVoidGrabber, hostCmdVoidGrabber]),
    (busCmdVoidPneu, [hostCmdVoidPneu, hostCmdVoidPneu]), (busCmdOffPneu, [hostCmdOffPneu, hostCmdOffPneu])]

/-- An event other than a write to the motor board. -/
def Quiet : MasterEvent → Prop
  | .call (.busWrite _ req) _ => req ≠ slaveIdMotor
  | _ => True

/-- What holds of the writes to the motor board. -/
def OnMotor (P : Byte → WriteAnswer → Prop) : MasterEvent → Prop
  | .call (.busWrite data req) a => req = slaveIdMotor → P data a
  | _ => True

instance (P : Byte → WriteAnswer → Prop) [∀ data a, Decidable (P data a)] : ∀ e, Decidable (OnMotor P e)
  | .call (.busWrite data req) a => inferInstanceAs (Decidable (req = slaveIdMotor → P data a))
  | .call .rxByte _ | .call .usbPresent _ | .call .readFailsafe _ | .call .clearFailsafe _ | .call .startTimer _
  | .call (.busRead _) _ | .call (.sendByte _) _ | .iter _ | .ext _ => isTrue trivial

theorem OnMotor.of_quiet {P : Byte → WriteAnswer → Prop} {e : MasterEvent} (quiet : Quiet e) : OnMotor P e := by
  unfold OnMotor
  split
  · exact fun motor => absurd motor quiet
  · trivial

/-- Nothing but the program writes to the motor board. -/
theorem OnMotor.of_own {P : Byte → WriteAnswer → Prop} {e : MasterEvent} (shown : e.Own → OnMotor P e) : OnMotor P e := by
  cases e with
  | ext e => trivial
  | call o a => exact shown trivial
  | iter l => exact shown trivial

/-- What is to be shown of `J n`, an invariant of the link while the master still
    writes `n` parameters: one step of every kind. -/
structure FrameRules (M : Monitor Op Ans Loop Interrupt Link) (J : ℕ → Link → Prop) : Prop where
  next : M.next = Link.next
  faults : ∀ s, M.faults s
  quiet : ∀ s e, Quiet e → J 0 s → M.allows s e → M.demands s e ∧ J 0 (s.next e)
  plain : ∀ s data a, data = busCmdKillMotors ∨ data ∈ plainCmds → J 0 s →
    M.allows s (.call (.busWrite data slaveIdMotor) a) →
    M.demands s (.call (.busWrite data slaveIdMotor) a) ∧ J 0 (s.write data a)
  actuator : ∀ s data a, (data, s.host) ∈ actuatorFrames → J 0 s →
    M.allows s (.call (.busWrite data slaveIdMotor) a) →
    M.demands s (.call (.busWrite data slaveIdMotor) a) ∧ J 0 (s.write data a)
  begins : ∀ s data a, data = busCmdSetMotSpeeds ∨ data = busCmdSetDerpy → J 0 s →
    M.allows s (.call (.busWrite data slaveIdMotor) a) →
    M.demands s (.call (.busWrite data slaveIdMotor) a) ∧ J (follows data a) (s.write data a)
  param : ∀ n s data a, J (n + 1) s → M.allows s (.call (.busWrite data slaveIdMotor) a) →
    M.demands s (.call (.busWrite data slaveIdMotor) a) ∧ J n (s.write data a)

/-! ### The commands keep the invariant -/

variable {M : Monitor Op Ans Loop Interrupt Link} {J : ℕ → Link → Prop}

/-- The invariant between frames, with the bytes that the host has sent. -/
def Between (J : ℕ → Link → Prop) (host : List Byte) (s : Link) : Prop := J 0 s ∧ s.host = host

/-- What is kept whatever the host has sent is kept. -/
theorem anyHost {α : Type} {p : Io α} (keeps : ∀ host, Keeps M (Between J host) p) : Keeps M (J 0) p :=
  fun s inv => wp_mono (fun _ _ kept => kept.1) (keeps s.host s ⟨inv, rfl⟩)

namespace FrameRules
variable (rules : FrameRules M J)
include rules

theorem stable {I : Link → Prop} : Stable M I := by
  rintro s ⟨⟩ inv allowed
  rw [rules.next]
  exact inv

/-- An event between frames that is no byte of the host. -/
theorem between {host : List Byte} {s : Link} {e : MasterEvent} (quiet : Quiet e) (same : (s.next e).host = s.host)
    (inv : Between J host s) (allowed : M.allows s e) : M.demands s e ∧ Between J host (M.next s e) := by
  obtain ⟨demanded, kept⟩ := rules.quiet s e quiet inv.1 allowed
  rw [rules.next]
  exact ⟨demanded, kept, same.trans inv.2⟩

theorem next_write (data : Byte) (a : WriteAnswer) (s : Link) :
    M.next s (.call (.busWrite data slaveIdMotor) a) = s.write data a := by
  rw [rules.next]
  rfl

/-- A write that keeps the invariant of the link, to whichever board. -/
theorem writes (host : List Byte) {data req : Byte}
    (plain : req = slaveIdMotor → data = busCmdKillMotors ∨ data ∈ plainCmds) :
    Keeps M (Between J host) (busWriteByte data req) := by
  refine .ask rules.stable (fun s a inv allowed => ?_) (fun a => ?_)
  · by_cases motor : req = slaveIdMotor
    · subst motor
      obtain ⟨demanded, kept⟩ := rules.plain s data a (plain rfl) inv.1 allowed
      rw [rules.next_write]
      exact ⟨demanded, kept, (write_host data a s).trans inv.2⟩
    · exact rules.between motor (by simp [Link.next, motor]) inv allowed
  · exact .ret rules.stable _

theorem writeAll (host : List Byte) {req : Byte} (other : req ≠ slaveIdMotor) (bytes : List Byte) :
    Keeps M (Between J host) (writeAll req bytes) := by
  induction bytes with
  | nil => exact .ret rules.stable ()
  | cons b rest ih => exact (rules.writes host (fun same => absurd same other)).bind (fun _ => ih)

theorem checkFailsafe (host : List Byte) : Keeps M (Between J host) checkFailsafe := by
  refine .ask rules.stable (fun s a inv allowed => rules.between trivial rfl inv allowed) (fun tripped => ?_)
  split
  · refine .ask rules.stable (fun s a inv allowed => rules.between trivial rfl inv allowed) (fun _ => ?_)
    exact (rules.writes host (fun _ => .inl rfl)).bind (fun _ => rules.writeAll host (by decide) _)
  · exact .ret rules.stable ()

/-- What `waitchar` returns is the byte that the host has sent. -/
def Received (J : ℕ → Link → Prop) (host : List Byte) (x : Int) (s : Link) : Prop :=
  (x = errNousb ∧ Between J host s) ∨ ∃ b : Byte, x = b.toNat ∧ Between J (host ++ [b]) s

theorem waits (host : List Byte) : Waits M (Between J host) (Between J host) (Between J host) (Received J host) where
  clear := rules.stable
  looked := rules.stable
  post _ := rules.stable
  check := rules.checkFailsafe host
  again _ inv := inv
  iter _ inv allowed := rules.between trivial rfl inv allowed
  byte s b inv allowed := by
    obtain ⟨demanded, kept⟩ := rules.quiet s (.call .rxByte (some b)) trivial inv.1 allowed
    refine ⟨demanded, .inr ⟨b, rfl, ?_⟩⟩
    rw [rules.next, ← inv.2]
    exact ⟨kept, rfl⟩
  empty _ inv allowed := rules.between trivial rfl inv allowed
  present _ inv allowed := rules.between trivial rfl inv allowed
  lost s inv allowed := by
    obtain ⟨demanded, kept⟩ := rules.between (e := .call .usbPresent false) trivial rfl inv allowed
    exact ⟨demanded, .inl ⟨rfl, kept⟩⟩

theorem waitchar {host : List Byte} {s : Link} (inv : Between J host s) : wp M waitchar (Received J host) s :=
  (rules.waits host).waitchar s inv

/-- An exchange that no board but the master takes part in. -/
theorem asks {α : Type} {host : List Byte} {o : Op} {k : Ans o → Io α}
    (quiet : ∀ (s : Link) a, Quiet (.call o a) ∧ (s.next (.call o a)).host = s.host)
    (rest : ∀ a, Keeps M (Between J host) (k a)) : Keeps M (Between J host) (.ask o k) :=
  .ask rules.stable (fun s a inv allowed => rules.between (quiet s a).1 (quiet s a).2 inv allowed) rest

theorem serves : Serves M (J 0) where
  stable := rules.stable
  waits := fun s inv => by
    refine wp_mono (fun _ t received => ?_) (rules.waitchar ⟨inv, rfl⟩)
    rcases received with ⟨-, kept⟩ | ⟨b, -, kept⟩
    · exact kept.1
    · exact kept.1
  writes := fun data req plain => anyHost (fun host => rules.writes host (fun same => .inr (plain same)))
  reads := fun req => anyHost (fun host => rules.asks (fun _ _ => ⟨trivial, rfl⟩)
    (fun _ => .ret rules.stable _))
  sends := fun i => anyHost (fun host => rules.asks (fun _ _ => ⟨trivial, rfl⟩) (fun _ => .ret rules.stable _))
  asks := anyHost (fun host => rules.asks (fun _ _ => ⟨trivial, rfl⟩) (fun _ => .ret rules.stable _))
  lost := anyHost (fun host => by
    refine .loop rules.stable (fun s inv allowed => rules.between trivial rfl inv allowed) (fun _ => ?_)
      (fun _ => .ret rules.stable _)
    exact rules.asks (fun _ _ => ⟨trivial, rfl⟩) (fun present => by cases present <;> exact .ret rules.stable _))
  faults := rules.faults

/-! ### Frames -/

theorem rely_eq {s t : Link} (rely : M.Rely s t) : t = s := by
  refine Still.rely_eq (fun u e _ => ?_) rely
  rw [rules.next]
  rfl

theorem motorWrite {Q : Int → Link → Prop} {data : Byte} {s : Link}
    (step : ∀ a, M.allows s (.call (.busWrite data slaveIdMotor) a) →
      M.demands s (.call (.busWrite data slaveIdMotor) a) ∧ Q a.code (s.write data a)) :
    wp M (busWriteByte data slaveIdMotor) Q s := by
  intro t rely a allowed
  obtain rfl := rules.rely_eq rely
  obtain ⟨demanded, post⟩ := step a allowed
  refine ⟨demanded, fun u later => ?_⟩
  rw [rules.next_write] at later
  obtain rfl := rules.rely_eq later
  exact post

theorem sendSpeeds (count i : ℕ) (m : Mem) {s : Link} (inv : J count s) :
    wp M (sendSpeeds i count m) (fun _ => J 0) s := by
  induction count generalizing i m s with
  | zero => exact fun t rely => rules.rely_eq rely ▸ inv
  | succ count ih =>
    rw [sendSpeeds_succ]
    refine wp_lift_bind (rules.motorWrite (fun a allowed => ?_))
    obtain ⟨demanded, kept⟩ := rules.param count s _ a inv allowed
    exact ⟨demanded, ih (i + 2) _ kept⟩

theorem setSpeeds : KeepsAll M (J 0) setSpeeds := by
  have rest : KeepsAll M (J 0) (do
      informDistro
      if (← get).t1 = 0 then sendByte hostReplySuccess else sendByte hostReplyFailure) :=
    rules.serves.informDistro.bind (fun _ => (KeepsAll.get rules.stable).bind (fun _ =>
      .ite (rules.serves.send _) (rules.serves.send _)))
  refine (rules.serves.modify _).bind (fun _ m s inv => wp_lift_bind (rules.motorWrite (fun a allowed => ?_)))
  obtain ⟨demanded, kept⟩ := rules.begins s _ a (.inl rfl) inv allowed
  exact ⟨demanded, wp_bind (wp_mono (fun r t kept => rest r.2 t kept) (rules.sendSpeeds 6 0 m kept))⟩

theorem arm : Keeps M (J 0) setMotorFailsafe :=
  anyHost (fun _ => rules.asks (fun _ _ => ⟨trivial, rfl⟩) (fun _ =>
    rules.asks (fun _ _ => ⟨trivial, rfl⟩) (fun _ => .ret rules.stable _)))

theorem setspeed : KeepsAll M (J 0) caseSetspeed :=
  (KeepsAll.lift rules.stable rules.arm).bind (fun _ => (rules.serves.receiveFrom 13 0).bind (fun _ =>
    (KeepsAll.get rules.stable).bind (fun _ => .ite (rules.serves.send _) rules.setSpeeds)))

/-- The frame of `SET_DERPY`, given up when its command fails. -/
theorem derpyFrame (speed : Byte) : KeepsAll M (J 0)
    (writeOrFail busCmdSetDerpy slaveIdMotor (writeOrFail speed slaveIdMotor success)) := by
  intro m s inv
  refine wp_lift_bind (rules.motorWrite (fun a allowed => ?_))
  obtain ⟨demanded, kept⟩ := rules.begins s _ a (.inr rfl) inv allowed
  refine ⟨demanded, ?_⟩
  by_cases delivered : a = .delivered
  · have one : follows busCmdSetDerpy a = 1 := by subst delivered; rfl
    rw [one] at kept
    rw [if_neg (by simp [delivered, WriteAnswer.code])]
    refine wp_lift_bind (rules.motorWrite (fun a allowed => ?_))
    obtain ⟨demanded, kept⟩ := rules.param 0 _ speed a kept allowed
    exact ⟨demanded, (KeepsAll.ite (rules.serves.send _) rules.serves.success) m _ kept⟩
  · have none : follows busCmdSetDerpy a = 0 := by
      rw [follows, if_neg (by decide), if_neg (by simp [delivered])]
    rw [none] at kept
    rw [if_pos (by simpa using delivered)]
    exact rules.serves.send _ m _ kept

theorem setDerpy : KeepsAll M (J 0) caseSetDerpy :=
  (rules.serves.receiveFrom 7 0).bind (fun _ => (KeepsAll.get rules.stable).bind (fun _ =>
    .ite (rules.serves.send _) (.ite (rules.serves.send _) (rules.derpyFrame _))))

/-! ### Actuators -/

/-- A byte for the pneumatics, once the host has sent its frame. -/
theorem actuatorWrite {data : Byte} {host : List Byte} (frame : (data, host) ∈ actuatorFrames) (m : Mem) {s : Link}
    (inv : Between J host s) : wp M (writeOrFail data slaveIdMotor success m) (fun _ => J 0) s := by
  refine wp_lift_bind (rules.motorWrite (fun a allowed => ?_))
  obtain ⟨demanded, kept⟩ := rules.actuator s data a (inv.2 ▸ frame) inv.1 allowed
  exact ⟨demanded, (KeepsAll.ite (rules.serves.send _) rules.serves.success) m _ kept⟩

theorem switch {cmd b : Byte} (frame : (b, [cmd, cmd]) ∈ actuatorFrames) (m : Mem) {s : Link}
    (inv : Between J [cmd] s) : wp M (switch cmd b slaveIdMotor m) (fun _ => J 0) s := by
  refine wp_lift_bind (wp_mono (fun _ t received => ?_) (rules.waitchar inv))
  rcases received with ⟨rfl, kept⟩ | ⟨x, rfl, kept⟩
  · rw [if_pos (by simp [errNousb])]
    exact rules.serves.send _ m t kept.1
  · split
    · exact rules.serves.send _ m t kept.1
    · have same : x = cmd := by
        rename_i equal
        exact BitVec.eq_of_toNat_eq (by simp at equal; omega)
      subst same
      exact rules.actuatorWrite frame m kept

/-- A byte of a command in `rxBuf[i]`. It is 0xFF when there is none. -/
theorem receive {i : ℕ} (low : i < rxBufSize) {host : List Byte} (m : Mem) {s : Link} (inv : Between J host s) :
    wp M (receive i m) (fun r t => ∃ (b : Byte) (h : List Byte), r.2 = { m with rxBuf := Function.update m.rxBuf i b } ∧
      Between J h t ∧ (b ≠ 0xFF#8 → h = host ++ [b])) s := by
  refine wp_lift_bind (wp_mono (fun x t received => ?_) (rules.waitchar inv))
  rw [setRx, if_pos low]
  intro u rely
  obtain rfl := rules.rely_eq rely
  refine ⟨toByte x, ?_⟩
  rcases received with ⟨rfl, kept⟩ | ⟨b, rfl, kept⟩
  · exact ⟨host, rfl, kept, fun absent => absurd rfl absent⟩
  · exact ⟨host ++ [b], rfl, kept, fun _ => by rw [toByte_toNat]⟩

/-- A parameter and its checksum. -/
theorem receiveTwo {host : List Byte} (m : Mem) {s : Link} (inv : Between J host s) :
    wp M (receiveFrom 0 2 m) (fun r t => ∃ h, Between J h t ∧ (r.2.rxBuf 0 ≠ 0xFF#8 → r.2.rxBuf 1 ≠ 0xFF#8 →
      h = host ++ [r.2.rxBuf 0, r.2.rxBuf 1])) s := by
  refine wp_bind (wp_mono ?_ (rules.receive (by decide) m inv))
  rintro ⟨-, m⟩ t ⟨b, h, rfl, inv, first⟩
  refine wp_bind (wp_mono ?_ (rules.receive (by decide) _ inv))
  rintro ⟨-, m⟩ t ⟨b', h', rfl, inv, second⟩ u rely
  obtain rfl := rules.rely_eq rely
  refine ⟨h', inv, fun some some' => ?_⟩
  simp at some some' ⊢
  rw [second some', first some, List.append_assoc]
  rfl

theorem marker (m : Mem) {s : Link} (inv : Between J [hostCmdMarker] s) : wp M (caseMarker m) (fun _ => J 0) s := by
  refine wp_bind (wp_mono ?_ (rules.receiveTwo m inv))
  rintro ⟨_, m⟩ t ⟨h, inv, host⟩
  show wp M ((if ¬ isBit (m.rxBuf 0) ∨ chksum m.rxBuf 1 hostCmdMarker ≠ m.rxBuf 1 then sendByte hostReplyBadchksum
    else writeOrFail (if m.rxBuf 0 = 0 then busCmdMarker1 else busCmdMarker2) slaveIdMotor success : Main Unit) m) _ t
  split
  case isTrue => exact rules.serves.send _ m t inv.1
  case isFalse valid =>
    rw [not_or, not_not, not_not, isBit_iff, chksum_one] at valid
    obtain ⟨bit, sum⟩ := valid
    simp only at host
    rw [← sum] at host
    rcases bit with zero | one
    · rw [zero] at host ⊢
      exact rules.actuatorWrite (by decide) m (host (by decide) (by decide) ▸ inv)
    · rw [one] at host ⊢
      exact rules.actuatorWrite (by decide) m (host (by decide) (by decide) ▸ inv)

/-! ### The loop -/

theorem dispatch (c : Byte) (m : Mem) {s : Link} (inv : Between J [c] s) : wp M (dispatch c m) (fun _ => J 0) s := by
  by_cases special : c ∈ motorCases
  · simp only [motorCases, List.mem_cons, List.not_mem_nil, or_false] at special
    rcases special with rfl | rfl | rfl | rfl | rfl | rfl | rfl | rfl | rfl | rfl | rfl | rfl | rfl | rfl
    · exact rules.marker m inv
    · exact rules.setspeed m s inv.1
    · exact rules.switch (b := busCmdFireTorp1) (by decide) m inv
    · exact rules.switch (b := busCmdFireTorp2) (by decide) m inv
    · exact rules.switch (b := busCmdArmTorp1) (by decide) m inv
    · exact rules.switch (b := busCmdArmTorp2) (by decide) m inv
    · exact rules.switch (b := busCmdVoidTorp1) (by decide) m inv
    · exact rules.switch (b := busCmdVoidTorp2) (by decide) m inv
    · exact rules.switch (b := busCmdExtGrabber) (by decide) m inv
    · exact rules.switch (b := busCmdRetGrabber) (by decide) m inv
    · exact rules.switch (b := busCmdVoidGrabber) (by decide) m inv
    · exact rules.switch (b := busCmdVoidPneu) (by decide) m inv
    · exact rules.switch (b := busCmdOffPneu) (by decide) m inv
    · exact rules.setDerpy m s inv.1
  · exact dispatch_plain rules.serves.speaks special m s inv.1

theorem command (m : Mem) {s : Link} (inv : Between J [] s) : wp M (command m) (fun _ => J 0) s := by
  refine wp_lift_bind (wp_mono (fun c t received => ?_) (rules.waitchar inv))
  have present : ∀ host, Keeps M (Between J host) usbPresent := fun host =>
    rules.asks (fun _ _ => ⟨trivial, rfl⟩) (fun _ => .ret rules.stable _)
  rcases received with ⟨rfl, kept⟩ | ⟨b, rfl, kept⟩
  · refine wp_lift_bind (wp_mono (fun here t kept => ?_) (present _ t kept))
    split
    · exact dispatch_plain rules.serves.speaks (by decide) m t kept.1
    · exact rules.serves.lostUsb m t kept.1
  · refine wp_lift_bind (wp_mono (fun here t kept => ?_) (present _ t kept))
    split
    · rw [toByte_toNat]
      exact rules.dispatch b m kept
    · exact rules.serves.lostUsb m t kept.1

/-- Every run of the master keeps the invariant. -/
theorem commandLoop (m : Mem) : Keeps M (J 0) (commandLoop m) := by
  refine .loopFrom (B := Between J []) rules.stable (fun s inv allowed => ?_) (fun m s inv => ?_) (fun b => b.elim)
  · obtain ⟨demanded, kept⟩ := rules.quiet s (.iter .command) trivial inv allowed
    rw [rules.next]
    exact ⟨demanded, kept, rfl⟩
  · refine wp_bind (wp_mono (fun r t kept => ?_) (rules.command m inv))
    exact fun u rely => rules.stable.rely rely kept

end FrameRules
end Tortuga.MotorLink
