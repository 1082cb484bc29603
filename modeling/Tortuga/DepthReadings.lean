import Tortuga.Readers

/-!
The depth that `SensorBoard::update` of the vehicle publishes, over the life of the object:
its constructor and the calls that follow, with any replies and errors of the driver.
-/
namespace Tortuga.DepthReadings
open Tortuga.Programs Tortuga.Readers
open Tortuga.SensorApi (sbError)
set_option linter.unusedSimpArgs false

abbrev sbUpdatedone : Int := 1

/-- What `::readDepth` returns when its reads are answered so. -/
def depthOf (answers : Board) : Int := (returned Readers.readDepth answers).getD sbError

/-! ### The object -/

/-- The calls of the object. The methods that send one command hold `m_deviceMutex` for it. -/
inductive Call (D : Type) where
  | update (timestep : D)
  | setThrusterValue (address : ℕ) (count : Int)
  | command
  deriving DecidableEq

/-- What the object asks for. `D` stands for `double`, `Info` for `struct boardInfo`. -/
inductive Op (D Info : Type) where
  /-- The next call of the object. -/
  | caller
  /-- `m_deviceMutex`. -/
  | lock
  | unlock
  /-- `m_state` is copied, or written back, under its own lock. -/
  | copyIn
  | copyBack
  | openSensorBoard
  | close (fd : Int)
  | syncBoard (fd : Int)
  | setSpeeds (fd : Int) (values : List Int)
  | partialRead (fd : Int) (telemetry : Info)
  | readDepth (fd : Int)
  | command (fd : Int)
  /-- A result of `readDepth` is converted to a depth. -/
  | convert (ret : Int)
  | abort
  /-- `IDepthSensor::UPDATE`. -/
  | updateEvent (depth : D)
  /-- `IDepthSensor::RAW_UPDATE`. -/
  | rawEvent (depth timestep : D)
  /-- The events about power, temperatures, thrusters and sonar. -/
  | telemetryEvents (telemetry : Info)
  deriving DecidableEq

/-- The driver answers with its results, `readDepth` with the answers to its reads. -/
abbrev Ans {D Info : Type} : Op D Info → Type
  | .caller => Call D
  | .openSensorBoard | .syncBoard _ | .setSpeeds _ _ | .command _ => Int
  | .partialRead _ _ => Int × Info
  | .readDepth _ => Board
  | .abort => Empty
  | _ => Unit

/-- The calls, one after another. -/
inductive Loop where
  | calls
  deriving DecidableEq

structure VehicleState (D Info : Type) where
  depth : D
  thrusterValues : List Int
  telemetry : Info
  mainBusVoltage : D

/-- `m_state` and `m_deviceFD`. -/
structure Members (D Info : Type) where
  state : VehicleState D Info
  deviceFD : Int

abbrev Vehicle (D Info : Type) := StateT (Members D Info) (Prog (Op D Info) Ans Loop)

/-- An event of a run of the object. -/
abbrev BoardEvent (D Info : Type) := Event (Op D Info) Ans Loop Empty

/-- `m_depthCalibSlope` and `m_depthCalibIntercept`; whether assertions are compiled in;
    and the voltage of the main bus, when the telemetry brought a new one. -/
structure Config (D Info : Type) where
  depthCalibSlope : D
  depthCalibIntercept : D
  asserts : Bool
  mainBusVoltage : Info → Option D

section
variable {D Info : Type} [IntCast D] [Sub D] [Div D] (config : Config D Info)

def calibrate (ret : Int) : D := ((ret : D) - config.depthCalibIntercept) / config.depthCalibSlope

def request (o : Op D Info) : Vehicle D Info (Ans o) := liftM (Prog.ask o .ret : Prog (Op D Info) Ans Loop (Ans o))

/-- `assert(false)`. -/
def assertFalse : Vehicle D Info Unit := do
  if config.asserts then return (← request .abort).elim

/-- A block under a `scoped_lock` of `m_deviceMutex`. -/
def scopedLock {α : Type} (block : Vehicle D Info α) : Vehicle D Info α := do
  request .lock
  let a ← block
  request .unlock
  return a

def syncBoard : Vehicle D Info Unit := do
  if sbError = (← request (.syncBoard (← get).deviceFD)) then assertFalse config

def establishConnection : Vehicle D Info Unit := scopedLock do
  if (← get).deviceFD < 0 then
    let fd ← request .openSensorBoard
    modify fun s => { s with deviceFD := fd }
    if fd < 0 then assertFalse config
  syncBoard config

def handleReturn (ret : Int) : Vehicle D Info Bool := do
  if ret < 0 then
    request (.close (← get).deviceFD)
    modify fun s => { s with deviceFD := -1 }
    establishConnection config
  return true

/-- `if (handleReturn(ret)) return ret; else assert(false); return 0`. -/
def checked (ret : Int) : Vehicle D Info Int := do
  if ← handleReturn config ret then return ret
  else
    assertFalse config
    return 0

def setSpeeds (values : List Int) : Vehicle D Info Unit := do
  let _ ← handleReturn config (← request (.setSpeeds (← get).deviceFD values))

def partialRead (telemetry : Info) : Vehicle D Info (Int × Info) := do
  let (ret, telemetry) ← request (.partialRead (← get).deviceFD telemetry)
  return (← checked config ret, telemetry)

def readDepth : Vehicle D Info Int := do
  checked config (depthOf (← request (.readDepth (← get).deviceFD)))

/-- The part of `update` that talks with the board: the result of `partialRead`, the
    telemetry, and the depth. -/
def talk (state : VehicleState D Info) : Vehicle D Info (Int × Info × D) := do
  setSpeeds config state.thrusterValues
  let (partialRet, telemetry) ← partialRead config state.telemetry
  let ret ← readDepth config
  request (.convert ret)
  return (partialRet, telemetry, calibrate config ret)

def update (timestep : D) : Vehicle D Info Unit := do
  request .copyIn
  let state := (← get).state
  let (partialRet, telemetry, depth) ← scopedLock (talk config state)
  request (.updateEvent depth)
  request (.rawEvent depth timestep)
  if partialRet = sbUpdatedone then request (.telemetryEvents telemetry)
  request .copyBack
  modify fun s => { s with state := { state with
    depth := depth
    telemetry := telemetry
    mainBusVoltage := (config.mainBusVoltage telemetry).getD state.mainBusVoltage } }

def perform : Call D → Vehicle D Info Unit
  | .update timestep => update config timestep
  | .setThrusterValue address count => modify fun s =>
    { s with state := { s.state with thrusterValues := s.state.thrusterValues.set address count } }
  | .command => scopedLock do
    let _ ← handleReturn config (← request (.command (← get).deviceFD))

/-! ### The life of the object -/

/-- `for (int i = 0; i < n; ++i) update(1.0/40)`. -/
def updates : ℕ → Vehicle D Info Unit
  | 0 => pure ()
  | n + 1 => do
    update config (((1 : Int) : D) / ((40 : Int) : D))
    updates n

/-- The two constructors: with a file descriptor, and without. -/
def constructor : Option Int → Vehicle D Info Unit
  | some fd => do
    modify fun s => { s with deviceFD := fd }
    if fd ≥ 0 then establishConnection config
  | none => do
    modify fun s => { s with deviceFD := -1 }
    establishConnection config
    updates config 11

/-- The calls that follow, with no end. -/
def calls : Vehicle D Info Unit := fun s =>
  .loop .calls s (fun s => .ask .caller fun call => (perform config call s).bind fun r => .ret (.inl r.2)) Empty.elim

/-- The object, with what its members hold before the constructor. -/
def life (deviceFD : Option Int) (garbage : Members D Info) : Prog (Op D Info) Ans Loop (Unit × Members D Info) :=
  (do constructor config deviceFD; calls config : Vehicle D Info Unit)
    { garbage with state := { garbage.state with thrusterValues := List.replicate 6 0 } }

/-! ### What is meant -/

/-- Whether `m_deviceMutex` is held, and what `readDepth` was answered in this update. -/
structure Watch where
  held : Bool
  read : Option Board

def idle : Watch := ⟨false, none⟩

def Watch.next (s : Watch) : BoardEvent D Info → Watch
  | .call .lock _ => { s with held := true }
  | .call .unlock _ => { s with held := false }
  | .call .copyIn _ => { s with read := none }
  | .call (.readDepth _) answers => { s with read := some answers }
  | _ => s

/-- A `boost::mutex` is not recursive: a thread that holds it and locks it again is blocked
    for ever. -/
def Watch.Granted (s : Watch) : BoardEvent D Info → Prop
  | .call .lock _ => s.held = false
  | _ => True

/-- What is converted is a result of this update that is no error, and what is published
    is what it was converted to. -/
def Watch.Good (s : Watch) : BoardEvent D Info → Prop
  | .call (.convert ret) _ => ∃ answers, s.read = some answers ∧ ret = depthOf answers ∧ 0 ≤ ret
  | .call (.updateEvent depth) _ | .call (.rawEvent depth _) _ =>
    ∃ answers, s.read = some answers ∧ 0 ≤ depthOf answers ∧ depth = calibrate config (depthOf answers)
  | _ => True

def watch : Monitor (Op D Info) Ans Loop Empty Watch where
  next := Watch.next
  allows := Watch.Granted
  demands := Watch.Good config
  faults _ := False

/-- A run in which the mutex is only given to a thread that does not hold it. -/
def Exclusive (tr : List (BoardEvent D Info)) : Prop := (watch config).Along Watch.Granted idle tr

/-- No update begins, and none reads the depth. -/
def Quiet (tr : List (BoardEvent D Info)) : Prop :=
  (∀ a, .call .copyIn a ∉ tr) ∧ ∀ fd answers, .call (.readDepth fd) answers ∉ tr

/-- `readDepth` was answered so in the update that `tr` has come to, and not again. -/
def ReadIn (tr : List (BoardEvent D Info)) (answers : Board) : Prop :=
  ∃ earlier fd later, tr = earlier ++ .call (.readDepth fd) answers :: later ∧ Quiet later

/-- After `tr`, an event about a depth is about the result of a `readDepth` of this update
    that succeeded. -/
def Successful (tr : List (BoardEvent D Info)) (event : BoardEvent D Info) : Prop :=
  (∀ ret a, event = .call (.convert ret) a →
    ∃ answers, ReadIn tr answers ∧ returned Readers.readDepth answers = some ret ∧ 0 ≤ ret) ∧
  ∀ depth a, event = .call (.updateEvent depth) a ∨ (∃ timestep, event = .call (.rawEvent depth timestep) a) →
    ∃ answers ret, ReadIn tr answers ∧ returned Readers.readDepth answers = some ret ∧ 0 ≤ ret ∧
      depth = calibrate config ret

end


/-! ### The talk with the board -/

section
variable {D Info : Type} [IntCast D] [Sub D] [Div D] {config : Config D Info} {α : Type} {m : Members D Info} {s t : Watch}

theorem still (config : Config D Info) : Still (watch config) := fun _ e => e.elim

theorem wp_ret {a : α} {Q : α → Watch → Prop} (holds : Q a s) :
    wp (watch config) (.ret a : Prog (Op D Info) Ans Loop α) Q s := (still config).ret holds

theorem wp_request {o : Op D Info} {f : Ans o → Vehicle D Info α} {Q : α × Members D Info → Watch → Prop}
    (event : ∀ a, s.Granted (.call o a) → s.Good config (.call o a) ∧ wp (watch config) (f a m) Q (s.next (.call o a))) :
    wp (watch config) ((request o >>= f) m) Q s := by
  refine wp_lift_bind ((still config).ask fun a granted => ?_)
  exact ⟨(event a granted).1, wp_ret (event a granted).2⟩

theorem wp_get {f : Members D Info → Vehicle D Info α} {Q : α × Members D Info → Watch → Prop}
    (holds : wp (watch config) (f m m) Q s) : wp (watch config) ((get >>= f) m) Q s := holds

theorem wp_modify {g : Members D Info → Members D Info} {f : Unit → Vehicle D Info α}
    {Q : α × Members D Info → Watch → Prop} (holds : wp (watch config) (f () (g m)) Q s) :
    wp (watch config) ((modify g >>= f) m) Q s := holds

/-- A result that is an error leads to a lock of the mutex that the thread holds. -/
theorem handleReturn_held (held : s.held = true) (ret : Int) :
    wp (watch config) (handleReturn config ret m) (fun r t => 0 ≤ ret ∧ r = (true, m) ∧ t = s) s := by
  unfold handleReturn
  split
  case isTrue failed =>
    refine wp_get (wp_request fun _ _ => ⟨trivial, wp_modify (wp_bind ?_)⟩)
    refine wp_request fun _ granted => ?_
    have free : s.held = false := granted
    rw [held] at free
    contradiction
  case isFalse fine => exact wp_ret ⟨Int.not_lt.mp fine, rfl, rfl⟩

theorem checked_held (held : s.held = true) (ret : Int) :
    wp (watch config) (checked config ret m) (fun r t => 0 ≤ ret ∧ r = (ret, m) ∧ t = s) s := by
  refine wp_bind (wp_mono ?_ (handleReturn_held held ret))
  rintro _ _ ⟨fine, rfl, rfl⟩
  exact wp_ret ⟨fine, rfl, rfl⟩

/-- The talk comes to its end only when no part of it failed. -/
theorem talk_held (held : s.held = true) (state : VehicleState D Info) :
    wp (watch config) (talk config state m) (fun r t => r.2 = m ∧ t.held = true ∧ ∃ answers, t.read = some answers ∧
      0 ≤ depthOf answers ∧ r.1.2.2 = calibrate config (depthOf answers)) s := by
  -- setSpeeds
  refine wp_bind (wp_get (wp_request fun ret _ => ⟨trivial, wp_bind (wp_mono ?_ (handleReturn_held held ret))⟩))
  rintro _ _ ⟨-, rfl, rfl⟩
  refine wp_ret ?_
  -- partialRead
  refine wp_bind (wp_get (wp_request fun ret _ => ⟨trivial, wp_bind (wp_mono ?_ (checked_held held ret.1))⟩))
  rintro _ _ ⟨-, rfl, rfl⟩
  refine wp_ret ?_
  -- readDepth
  refine wp_bind (wp_get (wp_request fun answers _ => ⟨trivial, wp_mono ?_ (checked_held (s := _) ?_ (depthOf answers))⟩))
  rotate_left
  · exact held
  rintro _ _ ⟨fine, rfl, rfl⟩
  refine wp_request fun _ _ => ⟨⟨answers, rfl, rfl, fine⟩, ?_⟩
  exact wp_ret ⟨rfl, held, answers, rfl, fine, rfl⟩

/-! ### The life of the object -/

def Watch.Held (held : Bool) (s : Watch) : Prop := s.held = held

theorem held_stable (held : Bool) : Stable (watch config) (Watch.Held held) := fun _ e => e.elim

theorem request_keeps {held : Bool} {o : Op D Info} (good : ∀ s a, Watch.Good config s (.call o a))
    (keeps : ∀ (s : Watch) a, (s.next (.call o a)).held = s.held) : KeepsAll (watch config) (Watch.Held held) (request o) :=
  KeepsAll.lift (held_stable held) (.ask (held_stable held) (fun s a inv _ => ⟨good s a, (keeps s a).trans inv⟩)
    fun _ => .ret (held_stable held) _)

theorem scopedLock_keeps {block : Vehicle D Info α} (keeps : KeepsAll (watch config) (Watch.Held true) block) :
    KeepsAll (watch config) (Watch.Held false) (scopedLock block) := by
  intro m s free
  refine wp_request fun _ _ => ⟨trivial, wp_bind (wp_mono ?_ (keeps m _ rfl))⟩
  intro r t held
  exact wp_request fun _ _ => ⟨trivial, wp_ret rfl⟩

theorem assertFalse_keeps (held : Bool) : KeepsAll (watch config) (Watch.Held held) (assertFalse config) := by
  refine .ite (.bind (request_keeps (fun _ _ => trivial) fun _ _ => rfl) fun stopped => stopped.elim) ?_
  exact .pure (held_stable held) _

theorem syncBoard_keeps (held : Bool) : KeepsAll (watch config) (Watch.Held held) (syncBoard config) := by
  refine .bind (.get (held_stable held)) fun m => .bind (request_keeps (fun _ _ => trivial) fun _ _ => rfl) fun ret => ?_
  exact .ite (assertFalse_keeps held) (.pure (held_stable held) _)

theorem establishConnection_keeps : KeepsAll (watch config) (Watch.Held false) (establishConnection config) := by
  refine scopedLock_keeps (.bind (.get (held_stable true)) fun m => .ite ?_ (syncBoard_keeps true))
  refine .bind (request_keeps (fun _ _ => trivial) fun _ _ => rfl) fun fd => ?_
  refine .bind (.modify (held_stable true) _) fun _ => .ite ?_ (syncBoard_keeps true)
  exact .bind (assertFalse_keeps true) fun _ => syncBoard_keeps true

/-- What an update publishes was read in it without an error. -/
theorem update_keeps (timestep : D) : KeepsAll (watch config) (Watch.Held false) (update config timestep) := by
  intro m s free
  refine wp_request fun _ _ => ⟨trivial, ?_⟩
  refine wp_get (wp_bind (wp_request fun _ _ => ⟨trivial, wp_bind (wp_mono ?_ (talk_held rfl m.state))⟩))
  rintro ⟨⟨partialRet, telemetry, depth⟩, _⟩ t ⟨rfl, -, answers, read, fine, same⟩
  refine wp_request fun _ _ => ⟨trivial, wp_ret ?_⟩
  refine wp_request fun _ _ => ⟨⟨answers, read, fine, same⟩, ?_⟩
  refine wp_request fun _ _ => ⟨⟨answers, read, fine, same⟩, ?_⟩
  split
  · refine wp_request fun _ _ => ⟨trivial, ?_⟩
    exact wp_request fun _ _ => ⟨trivial, wp_ret rfl⟩
  · exact wp_request fun _ _ => ⟨trivial, wp_ret rfl⟩

theorem perform_keeps (call : Call D) : KeepsAll (watch config) (Watch.Held false) (perform config call) := by
  cases call with
  | update timestep => exact update_keeps timestep
  | setThrusterValue address count => exact .modify (held_stable false) _
  | command =>
    refine scopedLock_keeps fun m s held => ?_
    refine wp_get (wp_request fun ret _ => ⟨trivial, wp_bind (wp_mono ?_ (handleReturn_held held ret))⟩)
    rintro _ _ ⟨-, rfl, rfl⟩
    exact wp_ret held

theorem updates_keeps (n : ℕ) : KeepsAll (watch config) (Watch.Held false) (updates config n) := by
  induction n with
  | zero => exact .pure (held_stable false) _
  | succ n ih => exact .bind (update_keeps _) fun _ => ih

theorem constructor_keeps (deviceFD : Option Int) :
    KeepsAll (watch config) (Watch.Held false) (constructor config deviceFD) := by
  cases deviceFD with
  | none =>
    refine .bind (.modify (held_stable false) _) fun _ => ?_
    exact .bind establishConnection_keeps fun _ => updates_keeps 11
  | some fd =>
    refine .bind (.modify (held_stable false) _) fun _ => ?_
    exact .ite establishConnection_keeps (.pure (held_stable false) _)

theorem calls_keeps : KeepsAll (watch config) (Watch.Held false) (calls config) := by
  intro m
  refine .loop (held_stable false) (fun _ inv _ => ⟨trivial, inv⟩) (fun m => ?_) fun b => b.elim
  refine .ask (held_stable false) (fun _ _ inv _ => ⟨trivial, inv⟩) fun call => ?_
  exact .bind (perform_keeps call m) fun r => .ret (held_stable false) _

theorem life_keeps (deviceFD : Option Int) (garbage : Members D Info) :
    Keeps (watch config) (Watch.Held false) (life config deviceFD garbage) :=
  KeepsAll.bind (constructor_keeps deviceFD) (fun _ => calls_keeps) _

/-! ### Depths -/

theorem returned_readDepth (answers : Board) : returned Readers.readDepth answers = some (depthOf answers) := by
  have other : SensorApi.bufOf [BusCodes.hostCmdDepth, BusCodes.hostCmdDepth] 0 ≠ BusCodes.hostReplyDepth := by decide
  unfold depthOf Readers.readDepth
  rw [returned_request other]
  split
  · rw [returned_readRest]
    rfl
  · rfl

/-- What the watch remembers was read in this update, or it was known from the start. -/
theorem read_after {tr : List (BoardEvent D Info)} {answers : Board}
    (read : ((watch config).after s tr).read = some answers) :
    ReadIn tr answers ∨ s.read = some answers ∧ Quiet tr := by
  induction tr generalizing s with
  | nil => exact .inr ⟨read, by simp [Quiet]⟩
  | cons e tr ih =>
    rcases ih (s := s.next e) read with ⟨earlier, fd, later, rfl, quiet⟩ | ⟨known, quiet⟩
    · exact .inl ⟨e :: earlier, fd, later, rfl, quiet⟩
    -- Nothing but a read and the beginning of an update changes what the watch remembers.
    have other (same : (s.next e).read = s.read) (one : ∀ a, e ≠ .call .copyIn a)
        (two : ∀ fd answers, e ≠ .call (.readDepth fd) answers) : s.read = some answers ∧ Quiet (e :: tr) := by
      refine ⟨same.symm.trans known, fun a mem => ?_, fun fd answers mem => ?_⟩
      · rcases List.mem_cons.mp mem with here | later
        · exact one a here.symm
        · exact quiet.1 a later
      · rcases List.mem_cons.mp mem with here | later
        · exact two fd answers here.symm
        · exact quiet.2 fd answers later
    cases e with
    | ext e => exact e.elim
    | iter l => exact .inr (other rfl (by simp) (by simp))
    | call o a =>
      cases o with
      | copyIn => cases known
      | readDepth fd =>
        cases Option.some_inj.mp known
        exact .inl ⟨[], fd, tr, rfl, quiet⟩
      | _ => exact .inr (other rfl (by simp) (by simp))

theorem readIn_of_read {tr : List (BoardEvent D Info)} {answers : Board}
    (read : ((watch config).after idle tr).read = some answers) : ReadIn tr answers := by
  rcases read_after read with found | ⟨known, _⟩
  · exact found
  · cases known

/-- What is good for the watch is successful. -/
theorem successful_of_good {tr : List (BoardEvent D Info)} {event : BoardEvent D Info}
    (good : Watch.Good config ((watch config).after idle tr) event) : Successful config tr event := by
  refine ⟨?_, ?_⟩
  · rintro ret a rfl
    obtain ⟨answers, read, rfl, fine⟩ := good
    exact ⟨answers, readIn_of_read read, returned_readDepth answers, fine⟩
  · rintro depth a (rfl | ⟨timestep, rfl⟩)
    · obtain ⟨answers, read, fine, same⟩ := good
      exact ⟨answers, depthOf answers, readIn_of_read read, returned_readDepth answers, fine, same⟩
    · obtain ⟨answers, read, fine, same⟩ := good
      exact ⟨answers, depthOf answers, readIn_of_read read, returned_readDepth answers, fine, same⟩

end

section
variable {D Info : Type} [IntCast D] [Sub D] [Div D]

/-- Over the life of the object, whatever the board and the driver answer, only results of
    `readDepth` that are no errors are converted, and what an update publishes is such a
    result of the same update. -/
theorem depths_successful (config : Config D Info) (deviceFD : Option Int) (garbage : Members D Info)
    {tr : List (BoardEvent D Info)} {p : Prog (Op D Info) Ans Loop (Unit × Members D Info)}
    (run : Run (life config deviceFD garbage) tr p) (exclusive : Exclusive config tr) :
    ∀ earlier event later, tr = earlier ++ event :: later → Successful config earlier event := by
  rintro earlier event later rfl
  have along := (life_keeps deviceFD garbage).run (s := idle) rfl run exclusive
  have good := Monitor.along_at _ along
  cases event with
  | ext e => exact e.elim
  | call o a => exact successful_of_good (good trivial)
  | iter l => exact successful_of_good (good trivial)

end

/-- Depths as they are read. -/
def plain : Config Int Unit where
  depthCalibSlope := 1
  depthCalibIntercept := 0
  asserts := true
  mainBusVoltage _ := none

def unset : Members Int Unit := ⟨⟨0, [], (), 0⟩, 0⟩

/-- The board is connected, and an update comes to the read of the depth. -/
def connected : List (BoardEvent Int Unit) :=
  [.call .lock (), .call (.syncBoard 3) 0, .call .unlock (), .iter .calls, .call .caller (.update 1), .call .copyIn (),
    .call .lock (), .call (.setSpeeds 3 [0, 0, 0, 0, 0, 0]) 0, .call (.partialRead 3 ()) (0, ())]

/-- The board delivers a reading of 500. -/
def reading : List (BoardEvent Int Unit) :=
  connected ++ [.call (.readDepth 3) [some [BusCodes.hostReplyDepth], some [0x01, 0xF4, 0xF8]], .call (.convert 500) (),
    .call .unlock ()]

theorem reading_successful : Successful plain reading (.call (.updateEvent 500) ()) :=
  have followed : (follow (life plain (some 3) unset) (reading ++ [.call (.updateEvent 500) ()])).isSome = true := by decide
  have exclusive : Exclusive plain (reading ++ [.call (.updateEvent 500) ()]) := by
    simp [Exclusive, Monitor.Along, watch, Watch.next, Watch.Granted, idle, reading, connected]
  (run_of_follow _ _ followed).elim fun _ run =>
    depths_successful plain (some 3) unset run exclusive reading _ [] rfl

-- Only the mutex is in the way: if it let its owner pass, the error of a reply that does
-- not come would be converted.
example : (follow (life plain (some 3) unset) (connected ++ [.call (.readDepth 3) [], .call (.close 3) (), .call .lock (),
    .call .openSensorBoard 4, .call (.syncBoard 4) 0, .call .unlock (), .call (.convert (-1)) ()])).isSome = true := by
  decide

end Tortuga.DepthReadings
