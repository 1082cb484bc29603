import Tortuga.Readers

/-!
The telemetry cycle of the driver (`partialRead` of `sensorapi.c`): each call makes the
next of twelve reads. A step that fails counts as made, and most steps write the error
code into the field that they read.
-/
namespace Tortuga.PartialReads
open Tortuga.Programs Tortuga.BusCodes Tortuga.SensorApi Tortuga.Readers
set_option linter.unusedSimpArgs false

abbrev sbUpdatedone : Int := 1

/-! ### `enum partialUpdateType_`, through which the code counts -/

namespace Update

@[match_pattern] abbrev noUpdate : ℕ := 0
@[match_pattern] abbrev status : ℕ := 1
@[match_pattern] abbrev thrusterState : ℕ := 2
@[match_pattern] abbrev barState : ℕ := 3
@[match_pattern] abbrev overcurrentState : ℕ := 4
@[match_pattern] abbrev batteryEnables : ℕ := 5
@[match_pattern] abbrev temp : ℕ := 6
@[match_pattern] abbrev motorCurrents : ℕ := 7
@[match_pattern] abbrev boardVoltagesCurrents : ℕ := 8
@[match_pattern] abbrev batteryVoltages : ℕ := 9
@[match_pattern] abbrev batteryCurrents : ℕ := 10
@[match_pattern] abbrev batteryUsed : ℕ := 11
@[match_pattern] abbrev sonar : ℕ := 12
@[match_pattern] abbrev endOfUpdates : ℕ := 13

end Update

/-- `struct boardInfo`. -/
structure BoardInfo where
  updateState : ℕ
  status : Int
  thrusterState : Int
  barState : Int
  ovrState : Int
  battEnabled : Int
  battUsed : Int
  powerInfo : PowerInfo
  temperature : Buf
  sonar : SonarData

/-! ### A call -/

def readBatteryUsage (stack : Buf) : Host Int := do
  let status ← readStatus stack
  return (BitVec.ofInt 32 status &&& 0x3F#32).toInt

/-- `info->field = retCode = read(fd)`. -/
def assign (read : Host Int) (set : Int → BoardInfo) : Host (Int × BoardInfo) := do
  let retCode ← read
  return (retCode, set retCode)

/-- `retCode = read(fd, &(info->powerInfo))`. -/
def power (read : Option PowerInfo → Host (Int × Option PowerInfo)) (info : BoardInfo) : Host (Int × BoardInfo) := do
  let (retCode, powerInfo) ← read (some info.powerInfo)
  return (retCode, { info with powerInfo := powerInfo.getD info.powerInfo })

/-- The switch, up to its default. -/
def readNext (stack : Buf) (info : BoardInfo) : Option (Host (Int × BoardInfo)) :=
  match info.updateState with
  | Update.status => some (assign (readStatus stack) fun retCode => { info with status := retCode })
  | Update.thrusterState => some (assign (readThrusterState stack) fun retCode => { info with thrusterState := retCode })
  | Update.barState => some (assign (readBarState stack) fun retCode => { info with barState := retCode })
  | Update.overcurrentState => some (assign (readOvrState stack) fun retCode => { info with ovrState := retCode })
  | Update.batteryEnables => some (assign (readBatteryEnables stack) fun retCode => { info with battEnabled := retCode })
  | Update.temp => some do
    let (retCode, temperature) ← readTemp info.temperature
    return (retCode, { info with temperature := temperature })
  | Update.motorCurrents => some (power readMotorCurrents info)
  | Update.boardVoltagesCurrents => some (power readBoardVoltages info)
  | Update.batteryVoltages => some (power readBatteryVoltages info)
  | Update.batteryCurrents => some (power readBatteryCurrents info)
  | Update.batteryUsed => some (assign (readBatteryUsage stack) fun retCode => { info with battUsed := retCode })
  | Update.sonar => some do
    let (retCode, sonar) ← getSonarData (some info.sonar)
    return (retCode, { info with sonar := sonar.getD info.sonar })
  | _ => none

/-- The step after `updateState`. -/
def next (updateState : ℕ) : ℕ := if Update.endOfUpdates = updateState + 1 then Update.status else updateState + 1

/-- What a call returns after a step with `retCode`. -/
def finish (updateState : ℕ) (retCode : Int) : Int :=
  if Update.endOfUpdates - 1 = updateState then if 0 ≤ retCode then sbUpdatedone else retCode
  else if retCode < 0 then retCode else sbOk

/-- The result, and what `info` points to. -/
def partialRead (stack : Buf) : Option BoardInfo → Host (Int × Option BoardInfo)
  | none => return (sbError, none)
  | some info => do
    let info := { info with updateState := next info.updateState }
    match readNext stack info with
    | none => return (sbOk, some { info with updateState := Update.status })
    | some step =>
      let (retCode, info) ← step
      return (finish info.updateState retCode, some info)

/-! ### Runs -/

/-- A call of `partialRead`: what is on the stack, and the answers to its reads. -/
structure Call where
  stack : Buf
  answers : Board

/-- `partialRead` at a call. -/
def Call.returns (call : Call) (info : BoardInfo) : Option (Int × Option BoardInfo) :=
  returned (partialRead call.stack (some info)) call.answers

/-- What calls one after another can make of `start`. -/
inductive Reaches (start : BoardInfo) : List Call → BoardInfo → Prop where
  | start : Reaches start [] start
  | call {calls : List Call} {info after : BoardInfo} {call : Call} {code : Int} (before : Reaches start calls info)
      (returns : call.returns info = some (code, some after)) : Reaches start (calls ++ [call]) after

/-- What a step of the cycle reads. `readBatteryUsage` reads the status once more. -/
def subRead : ℕ → Option Reader
  | Update.status => some .status
  | Update.thrusterState => some .thrusterState
  | Update.barState => some .barState
  | Update.overcurrentState => some .ovrState
  | Update.batteryEnables => some .batteryEnables
  | Update.temp => some .temp
  | Update.motorCurrents => some .motorCurrents
  | Update.boardVoltagesCurrents => some .boardVoltages
  | Update.batteryVoltages => some .batteryVoltages
  | Update.batteryCurrents => some .batteryCurrents
  | Update.batteryUsed => some .status
  | Update.sonar => some .sonar
  | _ => none

/-- What the sub-read of a call returns. -/
def Call.sub (call : Call) (info : BoardInfo) : Option Int :=
  (subRead (next info.updateState)).bind fun reader =>
    reader.result ⟨call.stack, info.temperature, some info.sonar, some info.powerInfo, none⟩ call.answers

/-- The temperatures after `readTemp` gets no right reply: zeros, and over them what came after a right first byte. -/
def clearedTemp (tempData : Buf) (answers : Board) : Buf :=
  store (store tempData 0 (List.replicate numTempSensors 0)) 0
    (if got 1 answers = [hostReplyTemperature] then got numTempSensors answers.tail else [])

/-- The telemetry after the step `updateState`, when its sub-read fails with `code`. -/
def failed (info : BoardInfo) (code : Int) (answers : Board) : BoardInfo :=
  match info.updateState with
  | Update.status => { info with status := code }
  | Update.thrusterState => { info with thrusterState := code }
  | Update.barState => { info with barState := code }
  | Update.overcurrentState => { info with ovrState := code }
  | Update.batteryEnables => { info with battEnabled := code }
  | Update.temp => { info with temperature := clearedTemp info.temperature answers }
  | _ => info

/-! ### What the readers make of a failure -/

theorem returned_map {α β : Type} (p : Host α) (f : α → β) (answers : Board) :
    returned (p.bind fun a => .ret (f a)) answers = (returned p answers).map f := by
  simp only [returned, exec_bind, exec_ret]
  cases exec board 0 p answers <;> rfl

section
variable {α : Type} {init : Buf} {reply : Byte} (bad : Byte → α) (other : init 0 ≠ reply) (answers : Board)
include other

/-- A reader of the first shape always returns. -/
theorem rest_returns (offset size : ℕ) (ok : Buf → Bool) (wrong : α) (good : Buf → α) :
    ∃ a, returned (request init reply bad (readRest offset size ok wrong good)) answers = some a ∧
      ((∃ b, a = bad b) ∨ a = wrong ∨ ∃ buf, a = good buf) := by
  rw [returned_request other]
  split
  · rw [returned_readRest]
    split
    · exact ⟨_, rfl, .inr (.inr ⟨_, rfl⟩)⟩
    · exact ⟨_, rfl, .inr (.inl rfl)⟩
  · exact ⟨_, rfl, .inl ⟨_, rfl⟩⟩

/-- A reader of the second shape always returns. -/
theorem data_returns (data : Buf) (size : ℕ) (wrong good : Buf → α) :
    ∃ a, returned (request init reply bad (readData2 data size reply wrong good)) answers = some a ∧
      ((∃ b, a = bad b) ∧ got 1 answers ≠ [reply] ∨ got 1 answers = [reply] ∧
        (a = wrong (store data 0 (got size answers.tail)) ∨ a = good (store data 0 (got size answers.tail)))) := by
  rw [returned_request other]
  split
  next came =>
    rw [returned_readData2]
    split
    · exact ⟨_, rfl, .inr ⟨came, .inr rfl⟩⟩
    · exact ⟨_, rfl, .inr ⟨came, .inl rfl⟩⟩
  next came => exact ⟨_, rfl, .inl ⟨⟨_, rfl⟩, came⟩⟩

end

theorem simpleRead_returns {cmdCode replyCode : Byte} (other : cmdCode ≠ replyCode) (stack : Buf) (answers : Board) :
    ∃ code, returned (simpleRead stack cmdCode replyCode) answers = some code := by
  have first : withCmd stack cmdCode 0 ≠ replyCode := other
  obtain ⟨code, returns, -⟩ := rest_returns (fun _ => sbError) first answers 0 2
    (fun buf => replyCode + buf 0 = buf 1) sbError (fun buf => ((buf 0).toNat : Int))
  exact ⟨code, returns⟩

theorem readStatus_returns (stack : Buf) (answers : Board) : ∃ code, returned (readStatus stack) answers = some code := by
  have other : hostCmdBoardstatus ≠ hostReplyBoardstatus := by decide
  have first : withCmd stack hostCmdBoardstatus 0 ≠ hostReplyBoardstatus := other
  obtain ⟨code, returns, -⟩ := rest_returns (fun _ => sbError) first answers 0 3
    (fun buf => buf 2 = buf 0 + buf 1 + hostReplyBoardstatus) sbError (fun buf => (word buf 0 : Int))
  exact ⟨code, returns⟩

/-- A command about power that fails leaves `info` alone. -/
theorem readPower_returns {cmd reply : Byte} (other : cmd ≠ reply) (size : ℕ) (fill : PowerInfo → Buf → PowerInfo)
    (info : PowerInfo) (answers : Board) :
    ∃ code after, returned (readPower cmd reply size fill (some info)) answers = some (code, some after) ∧
      (code < 0 → after = info) := by
  have first : bufOf [cmd, cmd] 0 ≠ reply := other
  obtain ⟨a, returns, how⟩ := rest_returns (fun code => (badReply code, some info)) first answers 1 size
    (fun buf => chksum buf size 0#8 = buf size) (sbBadcc, some info) (fun buf => (sbOk, some (fill info buf)))
  rcases how with ⟨b, rfl⟩ | rfl | ⟨buf, rfl⟩
  · exact ⟨_, _, returns, fun _ => rfl⟩
  · exact ⟨_, _, returns, fun _ => rfl⟩
  · exact ⟨_, _, returns, fun low => absurd low (by decide)⟩

theorem readTemp_returns (tempData : Buf) (answers : Board) :
    ∃ code, returned (readTemp tempData) answers = some (code, clearedTemp tempData answers) := by
  have other : bufOf [hostCmdTemperature, hostCmdTemperature] 0 ≠ 0x0B#8 := by decide
  let zero := store tempData 0 (List.replicate numTempSensors 0)
  obtain ⟨a, returns, ⟨⟨b, rfl⟩, missed⟩ | ⟨came, rfl | rfl⟩⟩ := data_returns (fun _ => (sbError, zero)) other answers zero
    numTempSensors (fun data => (sbError, data)) (fun data => (sbOk, data))
  · have same : clearedTemp tempData answers = zero := by
      rw [clearedTemp, if_neg missed, store_nil]
    exact ⟨sbError, by rw [same]; exact returns⟩
  all_goals
    have same : clearedTemp tempData answers = store zero 0 (got numTempSensors answers.tail) := by
      rw [clearedTemp, if_pos came]
    exact ⟨_, by rw [same]; exact returns⟩

/-- `getSonarData` leaves `sd` alone when it fails. -/
theorem getSonarData_returns (sd : SonarData) (answers : Board) :
    ∃ code after, returned (getSonarData (some sd)) answers = some (code, some after) ∧ (code < 0 → after = sd) := by
  have other : bufOf [hostCmdSonar, hostCmdSonar] 0 ≠ 0x0E#8 := by decide
  obtain ⟨a, returns, ⟨⟨b, rfl⟩, missed⟩ | ⟨came, rfl | rfl⟩⟩ := data_returns (fun _ => (sbError, some sd)) other answers
    (bufOf []) 22 (fun _ => (sbError, some sd)) (fun rawSonar => (sbOk, some (sonarOf rawSonar)))
  · exact ⟨_, _, returns, fun _ => rfl⟩
  · exact ⟨_, _, returns, fun _ => rfl⟩
  · exact ⟨_, _, returns, fun low => absurd low (by decide)⟩

/-! ### Every step of the cycle -/

/-- What a step makes of a sub-read that returns `sub`: its own result, and `info` after it. -/
def Makes (answers : Board) (info : BoardInfo) (step : Host (Int × BoardInfo)) (sub : Int) : Prop :=
  ∃ retCode after, returned step answers = some (retCode, after) ∧ after.updateState = info.updateState ∧
    (info.updateState = Update.batteryUsed → 0 ≤ retCode) ∧
    (info.updateState ≠ Update.batteryUsed → retCode = sub ∧ (sub < 0 → after = failed info sub answers))

/-- A step that stores what it reads, whatever that is. -/
theorem assign_makes {answers : Board} {info : BoardInfo} {read : Host Int} {set : Int → BoardInfo}
    (returns : ∃ code, returned read answers = some code) (used : info.updateState ≠ 11)
    (same : ∀ code, (set code).updateState = info.updateState) (stored : ∀ code, set code = failed info code answers) :
    ∃ sub, returned read answers = some sub ∧ Makes answers info (assign read set) sub := by
  obtain ⟨sub, returns⟩ := returns
  refine ⟨sub, returns, sub, set sub, ?_, same sub, fun is => absurd is used, fun _ => ⟨rfl, fun _ => stored sub⟩⟩
  exact (returned_map read _ answers).trans (by rw [returns]; rfl)

/-- A step about power, which leaves everything alone when it fails. -/
theorem power_makes {answers : Board} {info : BoardInfo} {read : Option PowerInfo → Host (Int × Option PowerInfo)}
    (returns : ∃ code after, returned (read (some info.powerInfo)) answers = some (code, some after) ∧
      (code < 0 → after = info.powerInfo))
    (used : info.updateState ≠ 11) (untouched : ∀ code, failed info code answers = info) :
    ∃ sub, (returned (read (some info.powerInfo)) answers).map (·.1) = some sub ∧
      Makes answers info (power read info) sub := by
  obtain ⟨sub, after, returns, keeps⟩ := returns
  refine ⟨sub, by rw [returns]; rfl, sub, { info with powerInfo := after }, ?_, rfl, fun is => absurd is used, fun _ => ⟨rfl, fun low => ?_⟩⟩
  · exact (returned_map (read (some info.powerInfo)) _ answers).trans (by rw [returns]; rfl)
  · rw [untouched, keeps low]

theorem masked_nonneg (x : BitVec 32) : 0 ≤ (x &&& 0x3F#32).toInt := by
  refine BitVec.toInt_nonneg_of_msb_false ?_
  rw [BitVec.msb_and, show (0x3F#32).msb = false by decide, Bool.and_false]

/-- The sub-read of the step `updateState` returns, and the step makes something of it. -/
theorem readNext_makes (call : Call) (info : BoardInfo) (low : 0 < info.updateState)
    (high : info.updateState < Update.endOfUpdates) :
    ∃ step, readNext call.stack info = some step ∧ ∃ sub,
      ((subRead info.updateState).bind fun reader =>
        reader.result ⟨call.stack, info.temperature, some info.sonar, some info.powerInfo, none⟩ call.answers) = some sub ∧
      Makes call.answers info step sub := by
  obtain ⟨state, status, thrusterState, barState, ovrState, battEnabled, battUsed, powerInfo, temperature, sonar⟩ := info
  have steps : state = 1 ∨ state = 2 ∨ state = 3 ∨ state = 4 ∨ state = 5 ∨ state = 6 ∨ state = 7 ∨ state = 8 ∨
      state = 9 ∨ state = 10 ∨ state = 11 ∨ state = 12 := by
    change 0 < state at low
    change state < 13 at high
    omega
  rcases steps with rfl | rfl | rfl | rfl | rfl | rfl | rfl | rfl | rfl | rfl | rfl | rfl
  · exact ⟨_, rfl, assign_makes (readStatus_returns _ _) (Nat.ne_of_beq_eq_false rfl) (fun _ => rfl) (fun _ => rfl)⟩
  iterate 4
    exact ⟨_, rfl, assign_makes (simpleRead_returns (by decide) _ _) (Nat.ne_of_beq_eq_false rfl) (fun _ => rfl)
      (fun _ => rfl)⟩
  · obtain ⟨sub, returns⟩ := readTemp_returns temperature call.answers
    let after : BoardInfo := ⟨6, status, thrusterState, barState, ovrState, battEnabled, battUsed, powerInfo,
      clearedTemp temperature call.answers, sonar⟩
    refine ⟨_, rfl, sub, ?_, sub, after, ?_, rfl, fun is => ?_, fun _ => ⟨rfl, fun _ => ?_⟩⟩
    · exact congrArg (Option.map (·.1)) returns
    · exact (returned_map (readTemp temperature) _ call.answers).trans (by rw [returns]; rfl)
    · exact absurd is (Nat.ne_of_beq_eq_false rfl)
    · rfl
  iterate 4
    exact ⟨_, rfl, power_makes (readPower_returns (by decide) _ _ _ _) (Nat.ne_of_beq_eq_false rfl) (fun _ => rfl)⟩
  · obtain ⟨sub, returns⟩ := readStatus_returns call.stack call.answers
    let used := (BitVec.ofInt 32 sub &&& 0x3F#32).toInt
    let after : BoardInfo := ⟨11, status, thrusterState, barState, ovrState, battEnabled, used, powerInfo, temperature,
      sonar⟩
    have masked : returned (readBatteryUsage call.stack) call.answers = some used :=
      (returned_map (readStatus call.stack) _ call.answers).trans (by rw [returns]; rfl)
    refine ⟨_, rfl, sub, returns, used, after, ?_, rfl, fun _ => masked_nonneg _, fun other => absurd rfl other⟩
    exact (returned_map (readBatteryUsage call.stack) _ call.answers).trans (by rw [masked]; rfl)
  · obtain ⟨sub, sd, returns, keeps⟩ := getSonarData_returns sonar call.answers
    let after : BoardInfo := ⟨12, status, thrusterState, barState, ovrState, battEnabled, battUsed, powerInfo,
      temperature, sd⟩
    refine ⟨_, rfl, sub, ?_, sub, after, ?_, rfl, fun is => ?_, fun _ => ⟨rfl, fun low => ?_⟩⟩
    · exact congrArg (Option.map (·.1)) returns
    · exact (returned_map (getSonarData (some sonar)) _ call.answers).trans (by rw [returns]; rfl)
    · exact absurd is (Nat.ne_of_beq_eq_false rfl)
    · obtain rfl := keeps low
      rfl

/-! ### The cycle -/

theorem next_eq {state : ℕ} (legal : state < Update.endOfUpdates) : next state = state % 12 + 1 := by
  simp only [Update.endOfUpdates] at legal
  simp only [next, Update.endOfUpdates, Update.status]
  split <;> omega

theorem finish_of_neg {retCode : Int} (low : retCode < 0) (state : ℕ) : finish state retCode = retCode := by
  have negative : ¬ 0 ≤ retCode := by omega
  rw [finish, if_neg negative, if_pos low, ite_self]

theorem finish_done (state : ℕ) (retCode : Int) :
    finish state retCode = sbUpdatedone ↔ state = Update.sonar ∧ 0 ≤ retCode := by
  simp only [finish, Update.endOfUpdates, Update.sonar, sbUpdatedone, sbOk]
  split <;> split <;> omega

/-- What a call returns and leaves, for every outcome of its sub-read. -/
theorem call_returns (call : Call) {info : BoardInfo} (legal : info.updateState < Update.endOfUpdates) :
    ∃ sub code after, call.sub info = some sub ∧ call.returns info = some (code, some after) ∧
      after.updateState = info.updateState % 12 + 1 ∧
      (sub < 0 → after.updateState ≠ Update.batteryUsed →
        code = sub ∧ after = failed { info with updateState := after.updateState } sub call.answers) ∧
      (code = sbUpdatedone ↔ after.updateState = Update.sonar ∧ 0 ≤ sub) := by
  have place := next_eq legal
  have low : 0 < next info.updateState := by omega
  have high : next info.updateState < Update.endOfUpdates := by
    simp only [Update.endOfUpdates]
    omega
  obtain ⟨step, switch, sub, found, retCode, after, returns, same, -, others⟩ :=
    readNext_makes call { info with updateState := next info.updateState } low high
  change after.updateState = next info.updateState at same
  rw [← same] at others switch place
  refine ⟨sub, finish after.updateState retCode, after, found, ?_, place, fun failure other => ?_, ?_⟩
  · rw [Call.returns, partialRead, ← same]
    simp only [switch]
    exact (returned_map step _ call.answers).trans (by rw [returns]; rfl)
  · obtain ⟨rfl, left⟩ := others other
    exact ⟨finish_of_neg failure _, left failure⟩
  · rw [finish_done]
    refine and_congr_right fun last => ?_
    obtain ⟨rfl, -⟩ := others (last ▸ Nat.ne_of_beq_eq_false rfl)
    rfl

/-- The counter moves on at every call, whatever became of its sub-read. -/
theorem Reaches.counts {start info : BoardInfo} {calls : List Call} (legal : start.updateState < Update.endOfUpdates)
    (reached : Reaches start calls info) :
    info.updateState < Update.endOfUpdates ∧ info.updateState % 12 = (start.updateState + calls.length) % 12 := by
  induction reached with
  | start => exact ⟨legal, rfl⟩
  | @call calls info after call code before returns ih =>
    obtain ⟨sub, code', after', -, returns', moved, -⟩ := call_returns call ih.1
    obtain rfl : after' = after := by
      rw [returns, Option.some.injEq, Prod.mk.injEq, Option.some.injEq] at returns'
      exact returns'.2.symm
    simp only [Update.endOfUpdates, List.length_append, List.length_singleton]
    omega

/-- In every run each call makes the next step of the cycle, whether the steps before failed or
    not. A step that fails returns its code and changes no field but the one that it reads. -/
theorem partialRead_cycle {start : BoardInfo} (legal : start.updateState < Update.endOfUpdates) {calls : List Call}
    {info : BoardInfo} (reached : Reaches start calls info) (call : Call) :
    ∃ sub code after, call.sub info = some sub ∧ call.returns info = some (code, some after) ∧
      after.updateState = (start.updateState + calls.length) % 12 + 1 ∧
      (sub < 0 → after.updateState ≠ Update.batteryUsed →
        code = sub ∧ after = failed { info with updateState := after.updateState } sub call.answers) ∧
      (code = sbUpdatedone ↔ after.updateState = Update.sonar ∧ 0 ≤ sub) := by
  obtain ⟨inside, place⟩ := reached.counts legal
  rw [← place]
  exact call_returns call inside

/-! ### A failure that stays -/

/-- Nothing is known yet, and nothing has been read. -/
def fresh (updateState : ℕ) : BoardInfo :=
  ⟨updateState, 0, 0, 0, 0, 0, 0, ⟨[], 0, 0, 0, 0, 0, 0, [], []⟩, bufOf [], ⟨0, 0, 0, 0, 0, 0, 0, 0⟩⟩

/-- A call whose reads get these bytes. -/
def hearing (replies : List (List Byte)) : Call := ⟨bufOf [], replies.map some⟩

theorem partialRead_cycle_status : ∃ sub code after, (hearing []).sub (fresh Update.noUpdate) = some sub ∧
    (hearing []).returns (fresh Update.noUpdate) = some (code, some after) ∧
    after.updateState = (Update.noUpdate + 0) % 12 + 1 ∧
    (sub < 0 → after.updateState ≠ Update.batteryUsed → code = sub ∧
      after = failed { fresh Update.noUpdate with updateState := after.updateState } sub (hearing []).answers) ∧
    (code = sbUpdatedone ↔ after.updateState = Update.sonar ∧ 0 ≤ sub) :=
  partialRead_cycle (show (fresh Update.noUpdate).updateState < Update.endOfUpdates by decide) .start (hearing [])

/-- A step whose sub-read fails returns a negative code and leaves the telemetry as before. -/
def LeavesTelemetry : Prop :=
  ∀ (start : BoardInfo) (calls : List Call) (info : BoardInfo) (call : Call) (code : Int) (after : BoardInfo) (sub : Int),
    start.updateState < Update.endOfUpdates → Reaches start calls info → call.returns info = some (code, some after) →
    call.sub info = some sub → sub < 0 → code < 0 ∧ after = { info with updateState := after.updateState }

/-- `SB_UPDATEDONE` says that no step of the cycle failed. -/
def DoneMeansSuccess : Prop :=
  ∀ (start : BoardInfo) (calls : List Call) (info : BoardInfo) (call : Call) (after : BoardInfo),
    start.updateState < Update.endOfUpdates → Reaches start calls info →
    call.returns info = some (sbUpdatedone, some after) →
    ∀ first earlier rest before sub, calls = first ++ earlier :: rest → rest.length < 11 → Reaches start first before →
      earlier.sub before = some sub → 0 ≤ sub

/-- `readStatus` gets no byte, and -1 is the new status. -/
theorem status_overwritten : ¬ LeavesTelemetry := by
  intro leaves
  obtain ⟨-, same⟩ := leaves (fresh Update.noUpdate) [] _ (hearing []) sbError _ sbError (by decide) .start rfl rfl
    (by decide)
  exact absurd (congrArg BoardInfo.status same) (by decide)

/-- The battery currents and their use cannot be read, the sonar can, and the cycle counts as done. -/
theorem done_after_failure : ¬ DoneMeansSuccess := by
  intro success
  let sonar := hearing [[hostReplySonar], List.replicate 22 0, [hostReplySonar]]
  have lost : (hearing []).returns (fresh Update.batteryVoltages) = some (sbError, some (fresh Update.batteryCurrents)) := rfl
  have legal : (fresh Update.batteryCurrents).updateState < Update.endOfUpdates := by decide
  obtain ⟨_, code, used, _, went, place, _⟩ := call_returns (hearing []) legal
  have both : Reaches (fresh Update.batteryVoltages) [hearing [], hearing []] used := .call (.call .start lost) went
  obtain ⟨sub, code, after, found, done, last, -, tells⟩ := call_returns sonar (both.counts (by decide)).1
  rw [place] at last
  have good : sub = sbOk := by
    rw [Call.sub, place] at found
    exact (Option.some.inj found).symm
  obtain rfl : code = sbUpdatedone := tells.mpr ⟨last, good ▸ Int.le_refl 0⟩
  have low := success _ _ _ sonar _ (by decide) both done [] (hearing []) [hearing []] _ sbError rfl (by decide) .start rfl
  exact absurd low (by decide)

theorem not_all_or_nothing : ¬ LeavesTelemetry ∧ ¬ DoneMeansSuccess := ⟨status_overwritten, done_after_failure⟩

end Tortuga.PartialReads
