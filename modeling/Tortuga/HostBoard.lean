import Tortuga.Speeds

/-!
The host and the sensor board together: the frames that the driver writes are the input
of the master, whose replies the driver reads.
-/
namespace Tortuga.HostBoard
open Tortuga.Programs Tortuga.BusCodes Tortuga.Master Tortuga.Commands
open Tortuga.SensorApi (Host store store_nil store_cons store_prefix speedBytes bufOf)
open Tortuga.Speeds
set_option linter.unusedSimpArgs false

/-- What the master has around it: the bytes that wait in its UART, the bytes that the
    slaves took and the replies to the host. -/
structure Wire where
  input : List Byte
  written : List (Byte × Byte)
  replies : List Byte

/-- Every write is delivered, USB is there and the failsafe is quiet. -/
def answer (t : Wire) : (o : Op) → Ans o × Wire
  | .rxByte => match t.input with
    | [] => (none, t)
    | b :: rest => (some b, { t with input := rest })
  | .usbPresent => (true, t)
  | .readFailsafe => (false, t)
  | .clearFailsafe => ((), t)
  | .startTimer => ((), t)
  | .busWrite data req => (.delivered, { t with written := t.written ++ [(data, req)] })
  | .busRead _ => (.noAck, t)
  | .sendByte i => ((), { t with replies := t.replies ++ [i] })

/-- One command, with one iteration of `waitchar` for each byte. -/
def runCommand (m : Mem) (frame : List Byte) : Option (Mem × Wire) :=
  (exec answer 1 (command m) ⟨frame, [], []⟩).map fun r => (r.1.2, r.2)

/-- What `runCommand` computes is a run of the command, answered by the board. -/
theorem runCommand_run {m : Mem} {frame : List Byte} {r : Mem × Wire} (ran : runCommand m frame = some r) :
    ∃ tr : List MasterEvent, Run (command m) tr (.ret ((), r.1)) ∧ Answers answer ⟨frame, [], []⟩ tr r.2 := by
  obtain ⟨⟨⟨_, m'⟩, t⟩, executed, rfl⟩ := Option.map_eq_some_iff.mp ran
  exact exec_run executed

/-! ### Steps of the master -/

variable (t : Wire) (m : Mem)

@[simp] theorem exec_waitchar (b : Byte) (rest : List Byte) (w : List (Byte × Byte)) (r : List Byte) :
    exec answer 1 waitchar ⟨b :: rest, w, r⟩ = some ((b.toNat : Int), ⟨rest, w, r⟩) := rfl

@[simp] theorem exec_write (data req : Byte) :
    exec answer 1 (busWriteByte data req) t = some (0, { t with written := t.written ++ [(data, req)] }) := rfl

@[simp] theorem exec_send (i : Byte) :
    exec answer 1 (sendByte i) t = some ((), { t with replies := t.replies ++ [i] }) := rfl

@[simp] theorem exec_present : exec answer 1 usbPresent t = some (true, t) := rfl
@[simp] theorem exec_arm : exec answer 1 setMotorFailsafe t = some ((), t) := rfl

theorem exec_setRx {i : ℕ} (low : i < rxBufSize) (b : Byte) : exec answer 1 (setRx i b m) t =
    some (((), { m with rxBuf := Function.update m.rxBuf i b }), t) := by
  rw [setRx, if_pos low, exec_modify]

@[simp] theorem exec_writeOrFail (data req : Byte) (rest : Main Unit) : exec answer 1 (writeOrFail data req rest m) t =
    exec answer 1 (rest m) { t with written := t.written ++ [(data, req)] } := by
  simp [writeOrFail]

@[simp] theorem exec_success : exec answer 1 (success m) t =
    some (((), m), { t with replies := t.replies ++ [hostReplySuccess] }) := by
  simp [success]

/-- The bytes of a frame end up in `rxBuf`. -/
theorem exec_receiveFrom (bytes rest : List Byte) (w : List (Byte × Byte)) (r : List Byte) (first : ℕ)
    (low : first + bytes.length ≤ rxBufSize) : exec answer 1 (receiveFrom first bytes.length m) ⟨bytes ++ rest, w, r⟩ =
      some (((), { m with rxBuf := store m.rxBuf first bytes }), ⟨rest, w, r⟩) := by
  induction bytes generalizing first m with
  | nil => simp [receiveFrom]
  | cons b bytes ih =>
    simp only [List.length_cons] at low
    simp only [List.length_cons, receiveFrom, receive, exec_all_bind, exec_lift, List.cons_append, exec_waitchar,
      Option.bind_some, toByte_toNat, exec_setRx _ _ (show first < rxBufSize by omega)]
    rw [ih _ (first + 1) (by omega), store_cons]

theorem exec_command (c : Byte) (rest : List Byte) : exec answer 1 (command m) ⟨c :: rest, [], []⟩ =
    exec answer 1 (dispatch c m) ⟨rest, [], []⟩ := by
  simp [command]

theorem exec_receiveTwo (a b : Byte) : exec answer 1 (receiveFrom 0 2 m) ⟨[a, b], [], []⟩ =
    some (((), { m with rxBuf := store m.rxBuf 0 [a, b] }), ⟨[], [], []⟩) :=
  exec_receiveFrom m [a, b] [] [] [] 0 (by simp [rxBufSize])

@[simp] theorem store_pair_zero (buf : ℕ → Byte) (a b : Byte) : store buf 0 [a, b] 0 = a := rfl
@[simp] theorem store_pair_one (buf : ℕ → Byte) (a b : Byte) : store buf 0 [a, b] 1 = b := rfl

theorem sum_comm (cmd b : Byte) : b + cmd = cmd + b := BitVec.add_comm b cmd

/-- A parameter with a good checksum. -/
theorem exec_param (cmd b : Byte) (valid : Byte → Bool) (rest : Byte → Main Unit) :
    exec answer 1 (param cmd valid rest m) ⟨[b, cmd + b], [], []⟩ =
      if valid b = true then exec answer 1 (rest b { m with rxBuf := store m.rxBuf 0 [b, cmd + b] }) ⟨[], [], []⟩
      else some (((), { m with rxBuf := store m.rxBuf 0 [b, cmd + b] }), ⟨[], [], [hostReplyBadchksum]⟩) := by
  simp only [param, exec_all_bind, exec_receiveTwo, Option.bind_some, exec_get, exec_ite, chksum_one, store_pair_zero,
    store_pair_one, sum_comm, ne_eq, not_true_eq_false, or_false, exec_lift, exec_send, List.nil_append]
  by_cases good : valid b = true
  · simp [good]
  · simp [good]

theorem exec_entry (table : List Byte) (b : Byte) : exec answer 1 (entry table b.toNat m) t =
    (table[b.toNat]?).map fun data => ((data, m), t) := by
  cases found : table[b.toNat]? with
  | none => rw [entry_none found]; rfl
  | some data => rw [entry_found found]; rfl

/-- A parameter that selects a byte of a table for a slave. -/
theorem exec_select (table : List Byte) (b slave : Byte) : exec answer 1 ((do
      writeOrFail (← entry table b.toNat) slave success : Main Unit) m) t =
    (table[b.toNat]?).map fun data =>
      (((), m), { t with written := t.written ++ [(data, slave)], replies := t.replies ++ [hostReplySuccess] }) := by
  rw [exec_all_bind, exec_entry]
  cases table[b.toNat]? <;> simp

/-! ### Agreement -/

/-- The host sends the frame of a value if and only if the board accepts the frame and
    does what the value asks for. -/
def Agrees (send : Host Int) (frame : List Byte) (done : Mem → List (Byte × Byte) → Prop) (m : Mem) : Prop :=
  frame ∈ SensorApi.sent send ↔
    ∃ r, runCommand m frame = some r ∧ r.2.replies = [hostReplySuccess] ∧ done r.1 r.2.written

/-- The frame of `simpleWrite`. -/
def paramFrame (cmd : Byte) (v : Int) : List Byte := [cmd, toByte v, cmd + toByte v]

/-- The value is the number of a byte of the table, and the slave gets that byte. -/
def Selects (table : List Byte) (slave : Byte) (v : Int) (written : List (Byte × Byte)) : Prop :=
  0 ≤ v ∧ ∃ data, table[v.toNat]? = some data ∧ written = [(data, slave)]

theorem runCommand_eq (c : Byte) (rest : List Byte) :
    runCommand m (c :: rest) = (exec answer 1 (dispatch c m) ⟨rest, [], []⟩).map fun r => (r.1.2, r.2) := by
  rw [runCommand, exec_command]

theorem selects_iff (table : List Byte) (slave : Byte) (v : Int) (small : table.length ≤ 256) :
    (∃ data, table[(toByte v).toNat]? = some data ∧ Selects table slave v [(data, slave)]) ↔
      0 ≤ v ∧ v < table.length := by
  constructor
  · rintro ⟨_, _, low, data, found, -⟩
    have inside := (List.getElem?_eq_some_iff.mp found).1
    exact ⟨low, by omega⟩
  · rintro ⟨low, inside⟩
    have same : (toByte v).toNat = v.toNat := by
      have := toNat_toByte low (by omega)
      omega
    have found : table[v.toNat]? = some table[v.toNat] := List.getElem?_eq_getElem (by omega)
    exact ⟨_, by rw [same, found], low, _, found, rfl⟩

/-- What comes of a parameter that selects a byte of a table, when the board accepts it. -/
theorem performs_iff {table : List Byte} {slave : Byte} {v : Int} {run : Option (Mem × Wire)} {ok : Prop} [Decidable ok]
    {m₁ m₂ : Mem} (small : table.length ≤ 256)
    (ran : run = if ok then (table[(toByte v).toNat]?).map fun data =>
        (m₁, ⟨[], [(data, slave)], [hostReplySuccess]⟩) else some (m₂, ⟨[], [], [hostReplyBadchksum]⟩)) :
    (∃ r, run = some r ∧ r.2.replies = [hostReplySuccess] ∧ Selects table slave v r.2.written) ↔
      ok ∧ 0 ≤ v ∧ v < table.length := by
  rw [← selects_iff table slave v small, ran]
  by_cases good : ok
  · simp only [good, ↓reduceIte, true_and, Option.map_eq_some_iff]
    constructor
    · rintro ⟨r, ⟨data, found, rfl⟩, -, selects⟩
      exact ⟨data, found, selects⟩
    · rintro ⟨data, found, selects⟩
      exact ⟨_, ⟨data, found, rfl⟩, rfl, selects⟩
  · simp only [good, ↓reduceIte, false_and, iff_false]
    rintro ⟨r, same, replied, -⟩
    cases same
    have other : [hostReplyBadchksum] ≠ [hostReplySuccess] := by decide
    exact other replied

/-! ### The commands -/

theorem sent_param (cmd : Byte) (v range : Int) :
    paramFrame cmd v ∈ SensorApi.sent (SensorApi.simpleWrite cmd v range) ↔ 0 ≤ v ∧ v ≤ range := by
  rw [SensorApi.sent_simpleWrite]
  split
  · simp
    omega
  · simp [paramFrame]
    omega

/-- The scratch variables after a parameter and its checksum. -/
def received (cmd : Byte) (v : Int) : Mem := { m with rxBuf := store m.rxBuf 0 [toByte v, cmd + toByte v] }

section
variable {cmd slave : Byte} {valid : Byte → Bool} {table : List Byte} {rest : Byte → Main Unit} {handler : Main Unit}

/-- The board on the frame of a parameter that selects a byte of a table. -/
theorem run_select (isCase : dispatch cmd = handler) (shape : handler = param cmd valid rest)
    (selects : ∀ b m t, valid b = true → exec answer 1 (rest b m) t = (table[b.toNat]?).map fun data =>
      (((), m), { t with written := t.written ++ [(data, slave)], replies := t.replies ++ [hostReplySuccess] }))
    (v : Int) : runCommand m (paramFrame cmd v) = if valid (toByte v) = true then
      (table[(toByte v).toNat]?).map fun data => (received m cmd v, ⟨[], [(data, slave)], [hostReplySuccess]⟩)
      else some (received m cmd v, ⟨[], [], [hostReplyBadchksum]⟩) := by
  rw [paramFrame, runCommand_eq, isCase, shape, exec_param]
  split
  case isTrue good =>
    rw [selects _ _ _ good, Option.map_map]
    rfl
  case isFalse => rfl

theorem select_agrees (isCase : dispatch cmd = handler) (shape : handler = param cmd valid rest) (small : table.length ≤ 256)
    (selects : ∀ b m t, valid b = true → exec answer 1 (rest b m) t = (table[b.toNat]?).map fun data =>
      (((), m), { t with written := t.written ++ [(data, slave)], replies := t.replies ++ [hostReplySuccess] }))
    (v range : Int) : Agrees (SensorApi.simpleWrite cmd v range) (paramFrame cmd v) (fun _ => Selects table slave v) m ↔
      (0 ≤ v ∧ v ≤ range ↔ valid (toByte v) = true ∧ 0 ≤ v ∧ v < table.length) := by
  rw [Agrees, sent_param, performs_iff small (run_select m isCase shape selects v)]

end

theorem setBarState_agrees (v : Int) : Agrees (SensorApi.setBarState v) (paramFrame hostCmdBars v)
    (fun _ => Selects barCommands slaveIdBars v) m ↔ v ≠ 16 := by
  have valid : 0 ≤ v → v < 16 → (toByte v).toNat ≤ 15 := fun low high => by
    have := toNat_toByte low (by omega)
    omega
  rw [SensorApi.setBarState, select_agrees m (show dispatch hostCmdBars = caseBars from rfl) rfl (by decide)
    (fun b m t _ => exec_select t m barCommands b slaveIdBars)]
  simp only [decide_eq_true_eq, show barCommands.length = 16 from rfl]
  omega

theorem isBit_toByte {v : Int} (low : 0 ≤ v) (high : v < 2) : isBit (toByte v) = true := by
  obtain rfl | rfl : v = 0 ∨ v = 1 := by omega
  · rfl
  · rfl

/-- The markers, one byte each. -/
theorem exec_marker (b : Byte) (t : Wire) (bit : isBit b = true) :
    exec answer 1 (writeOrFail (if b = 0 then busCmdMarker1 else busCmdMarker2) slaveIdMarkers success m) t =
      ([busCmdMarker1, busCmdMarker2][b.toNat]?).map fun data =>
        (((), m), { t with written := t.written ++ [(data, slaveIdMarkers)], replies := t.replies ++ [hostReplySuccess] }) := by
  rcases (isBit_iff b).mp bit with rfl | rfl
  · simp
  · simp

theorem dropMarker_agrees (v : Int) : Agrees (SensorApi.dropMarker v) (paramFrame hostCmdMarker v)
    (fun _ => Selects [busCmdMarker1, busCmdMarker2] slaveIdMarkers v) m ↔ v ≠ 2 := by
  have valid := isBit_toByte (v := v)
  rw [SensorApi.dropMarker, select_agrees m (show dispatch hostCmdMarker = caseMarker from rfl) rfl (by decide)
    (fun b m t => exec_marker m b t)]
  simp only [List.length_cons, List.length_nil]
  constructor
  · rintro agrees rfl
    exact absurd (agrees.mp ⟨by omega, by omega⟩).2.2 (by decide)
  · intro other
    constructor
    · rintro ⟨low, high⟩
      exact ⟨valid low (by omega), low, by omega⟩
    · rintro ⟨-, low, high⟩
      exact ⟨low, by omega⟩

/-- The board looks at what an earlier command left in `t1`. -/
theorem setBatteryState_agrees (v : Int) : Agrees (SensorApi.setBatteryState v) (paramFrame hostCmdBattctl v)
    (fun _ => Selects battCommands slaveIdBattstat v) m ↔ if m.t1 ≤ 9 then v ≠ 11 else v < 0 ∨ 10 < v := by
  have ran : runCommand m (paramFrame hostCmdBattctl v) = if ¬ m.t1 > 9 then
      (battCommands[(toByte v).toNat]?).map fun data =>
        (received m hostCmdBattctl v, ⟨[], [(data, slaveIdBattstat)], [hostReplySuccess]⟩)
      else some (received m hostCmdBattctl v, ⟨[], [], [hostReplyBadchksum]⟩) := by
    rw [paramFrame, runCommand_eq]
    show (exec answer 1 (caseBattctl m) _).map _ = _
    simp only [caseBattctl, exec_all_bind, exec_receiveTwo, Option.bind_some, exec_get, exec_ite, chksum_one,
      store_pair_zero, store_pair_one, sum_comm, ne_eq, not_true_eq_false, or_false]
    by_cases stale : m.t1 > 9
    · simp [stale, received]
    · simp only [stale, ↓reduceIte, not_false_eq_true, exec_entry]
      cases battCommands[(toByte v).toNat]? <;> simp [received]
  rw [Agrees, SensorApi.setBatteryState, sent_param, performs_iff (by decide) ran]
  simp only [show battCommands.length = 12 from rfl]
  split <;> omega

theorem setBarOutputs_agrees (v : Int) : Agrees (SensorApi.setBarOutputs v) (paramFrame hostCmdSetBars v)
    (fun _ written => ∃ b : Byte, (b.toNat : Int) = v ∧ written = [(busCmdSetBars, slaveIdBars), (b, slaveIdBars)]) m ↔
      v ≠ 256 := by
  have ran : runCommand m (paramFrame hostCmdSetBars v) = some (received m hostCmdSetBars v,
      ⟨[], [(busCmdSetBars, slaveIdBars), (toByte v, slaveIdBars)], [hostReplySuccess]⟩) := by
    rw [paramFrame, runCommand_eq]
    show (exec answer 1 (caseSetBars m) _).map _ = _
    rw [caseSetBars, exec_param, if_pos rfl]
    simp [received]
  have byte : (∃ b : Byte, (b.toNat : Int) = v ∧ [(busCmdSetBars, slaveIdBars), (toByte v, slaveIdBars)] =
      [(busCmdSetBars, slaveIdBars), (b, slaveIdBars)]) ↔ 0 ≤ v ∧ v ≤ 255 := by
    constructor
    · rintro ⟨b, rfl, -⟩
      have := b.isLt
      omega
    · rintro ⟨low, high⟩
      exact ⟨toByte v, toNat_toByte low high, rfl⟩
  rw [Agrees, SensorApi.setBarOutputs, sent_param, ran]
  simp only [Option.some.injEq, exists_eq_left', true_and, byte]
  omega

/-- Text for the display changes nothing but the display. -/
theorem exec_showFrom (line : ℕ) (str : List Char) (i : ℕ) : ∃ w, exec answer 1 (showFrom line i str) t =
    some ((), { t with written := w }) := by
  induction str generalizing i t with
  | nil => exact ⟨_, rfl⟩
  | cons c rest ih =>
    rw [showFrom]
    split
    · exact ih _ (i + 1)
    · exact ⟨_, rfl⟩

theorem setDiagnostics_agrees (v : Int) : Agrees (SensorApi.setDiagnostics v) (paramFrame hostCmdRuntimediag v)
    (fun m' _ => (m'.diagMsg.toNat : Int) = v) m ↔ v ≠ 2 := by
  have ran : ∃ w, runCommand m (paramFrame hostCmdRuntimediag v) = if isBit (toByte v) = true then
      some ({ received m hostCmdRuntimediag v with diagMsg := toByte v }, ⟨[], w, [hostReplySuccess]⟩)
      else some (received m hostCmdRuntimediag v, ⟨[], [], [hostReplyBadchksum]⟩) := by
    obtain ⟨w, shown⟩ := exec_showFrom ⟨[], [], []⟩ 1 (if toByte v = 0 then diagOff else diagOn) 0
    refine ⟨w, ?_⟩
    rw [paramFrame, runCommand_eq]
    show (exec answer 1 (caseRuntimediag m) _).map _ = _
    rw [caseRuntimediag, exec_param]
    split
    · simp only [exec_all_bind, exec_modify, Option.bind_some, exec_lift, showString, shown, exec_success, received,
        Option.map_some, List.nil_append]
    · rfl
  obtain ⟨w, ran⟩ := ran
  have other : [hostReplyBadchksum] ≠ [hostReplySuccess] := by decide
  have small : isBit (toByte v) = true → ((toByte v).toNat : Int) ≤ 1 := fun bit => by
    rcases (isBit_iff _).mp bit with zero | one
    · rw [zero]; decide
    · rw [one]; decide
  rw [Agrees, SensorApi.setDiagnostics, sent_param, ran]
  by_cases bit : isBit (toByte v) = true
  · have below := small bit
    have same := toNat_toByte (x := v)
    simp only [bit, ↓reduceIte, Option.some.injEq, exists_eq_left', true_and]
    constructor
    · rintro - rfl
      exact absurd bit (by decide)
    · intro notTwo
      constructor
      · exact fun inside => same inside.1 (by omega)
      · intro equal
        omega
  · have bits := isBit_toByte (v := v)
    simp only [bit, Bool.false_eq_true, ↓reduceIte, Option.some.injEq, exists_eq_left', other, false_and, iff_false]
    constructor
    · rintro refused rfl
      exact refused ⟨by omega, by omega⟩
    · rintro notTwo ⟨low, high⟩
      exact bit (bits low (by omega))

/-! ### Frames with a checksum at the end -/

/-- The checksum that the host appends is the one that the master expects. -/
theorem frame_sum (cmd : Byte) (params rest : List Byte) (buf : ℕ → Byte) :
    chksum (store buf 0 (params ++ rest)) params.length cmd = chksum (bufOf (cmd :: params)) (cmd :: params).length 0#8 := by
  have whole := SensorApi.firstBytes_bufOf (cmd :: params)
  rw [SensorApi.firstBytes] at whole
  rw [chksum_eq, chksum_eq, store_prefix, whole, List.foldl_cons, foldl_add params (0#8 + cmd), BitVec.zero_add, BitVec.add_zero]
  exact BitVec.add_comm _ _

/-- The frame of a command with its checksum. -/
def sumFrame (cmd : Byte) (params : List Byte) : List Byte :=
  cmd :: (params ++ [chksum (bufOf (cmd :: params)) (cmd :: params).length 0#8])

theorem sent_sumFrame (cmd : Byte) (params : List Byte) {n : ℕ} (length : params.length + 2 = n) :
    SensorApi.sent (SensorApi.exchange (SensorApi.withSum (cmd :: params)) n) = [sumFrame cmd params] :=
  SensorApi.sent_exchange _ (by simp; omega)

/-- The scratch variables after the parameters of a frame and its checksum. -/
def receivedFrame (cmd : Byte) (params : List Byte) : Mem :=
  { m with rxBuf := store m.rxBuf 0 (params ++ [chksum (bufOf (cmd :: params)) (cmd :: params).length 0#8]) }

theorem exec_receiveFrame (cmd : Byte) (params : List Byte) {n : ℕ} (length : params.length + 1 = n) (small : n ≤ rxBufSize)
    (w : List (Byte × Byte)) : exec answer 1 (receiveFrom 0 n m)
      ⟨params ++ [chksum (bufOf (cmd :: params)) (cmd :: params).length 0#8], w, []⟩ =
      some (((), receivedFrame m cmd params), ⟨[], w, []⟩) := by
  have received := exec_receiveFrom m (params ++ [chksum (bufOf (cmd :: params)) (cmd :: params).length 0#8]) [] w [] 0
    (by simp; omega)
  rw [List.length_append, List.length_singleton, length, List.append_nil] at received
  exact received

theorem receivedFrame_rx (cmd : Byte) (params : List Byte) {i : ℕ} (low : i < params.length) :
    (receivedFrame m cmd params).rxBuf i = params[i] := by
  simp [receivedFrame, store, List.getElem?_append_left low, low]

/-- The checksum of a frame of the host is good. -/
theorem receivedFrame_sum (cmd : Byte) (params : List Byte) {n : ℕ} (length : params.length = n) :
    chksum (receivedFrame m cmd params).rxBuf n cmd = (receivedFrame m cmd params).rxBuf n := by
  subst length
  rw [receivedFrame, frame_sum]
  simp [store]

theorem setOvrParams_agrees (a b : Int) :
    Agrees (SensorApi.setOvrParams a b) (sumFrame hostCmdSetOvrlimit [toByte a, toByte b])
      (fun _ written => ∃ x y : Byte, (x.toNat : Int) = a ∧ (y.toNat : Int) = b ∧ written =
        ([busCmdWriteReg, 0, x, busCmdWriteReg, 1, y].map fun data => (data, slaveIdThrusters))) m := by
  have ran : runCommand m (sumFrame hostCmdSetOvrlimit [toByte a, toByte b]) =
      some (receivedFrame m hostCmdSetOvrlimit [toByte a, toByte b],
        ⟨[], [busCmdWriteReg, 0, toByte a, busCmdWriteReg, 1, toByte b].map fun data => (data, slaveIdThrusters),
          [hostReplySuccess]⟩) := by
    rw [sumFrame, runCommand_eq]
    show (exec answer 1 (caseSetOvrlimit m) _).map _ = _
    have sum := receivedFrame_sum m hostCmdSetOvrlimit [toByte a, toByte b] (n := 2) rfl
    have zero := receivedFrame_rx m hostCmdSetOvrlimit [toByte a, toByte b] (i := 0) (by simp)
    have one := receivedFrame_rx m hostCmdSetOvrlimit [toByte a, toByte b] (i := 1) (by simp)
    simp only [caseSetOvrlimit, exec_all_bind, exec_receiveFrame m hostCmdSetOvrlimit [toByte a, toByte b] (n := 3) rfl
      (by decide), Option.bind_some, exec_get, exec_ite, sum, ne_eq, not_true_eq_false, ↓reduceIte, writeReg, zero, one,
      exec_writeOrFail, exec_success]
    rfl
  have sends : sumFrame hostCmdSetOvrlimit [toByte a, toByte b] ∈ SensorApi.sent (SensorApi.setOvrParams a b) ↔
      0 ≤ a ∧ a ≤ 255 ∧ 0 ≤ b ∧ b ≤ 255 := by
    rw [SensorApi.setOvrParams, SensorApi.sent_ite, sent_sumFrame hostCmdSetOvrlimit [toByte a, toByte b] (n := 4) rfl]
    split
    · simp [SensorApi.sent_ret]
      omega
    · simp
      omega
  rw [Agrees, sends, ran]
  simp only [Option.some.injEq, exists_eq_left', true_and]
  constructor
  · rintro ⟨low, high, low', high'⟩
    exact ⟨_, _, toNat_toByte low high, toNat_toByte low' high', rfl⟩
  · rintro ⟨x, y, rfl, rfl, -⟩
    have := x.isLt
    have := y.isLt
    omega

theorem isSafety_store (safety rest : List Byte) (buf : ℕ → Byte) : isSafety safety (store buf 0 (safety ++ rest)) = true := by
  simp only [isSafety, List.all_eq_true, List.mem_range, decide_eq_true_eq]
  intro i low
  simp [store, List.getElem?_append_left low, low]

/-- The sum that the master keeps of a safety sequence and a state. -/
theorem safety_sum (state : Byte) (rest : List Byte) (buf : ℕ → Byte) :
    chksum (store buf 0 (tkSafety ++ rest)) 5 (toByte ((state.toNat : Int) + hostCmdThrusters.toNat)) =
      chksum (bufOf (hostCmdThrusters :: (tkSafety ++ [state]))) 7 0#8 := by
  have byte : toByte ((state.toNat : Int) + hostCmdThrusters.toNat) = state + hostCmdThrusters := by
    apply BitVec.eq_of_toNat_eq
    rw [toByte, BitVec.toNat_ofInt, BitVec.toNat_add]
    omega
  have whole := SensorApi.firstBytes_bufOf (hostCmdThrusters :: (tkSafety ++ [state]))
  rw [SensorApi.firstBytes] at whole
  have part := store_prefix buf tkSafety rest
  rw [chksum_eq, chksum_eq, byte, show 5 = tkSafety.length from rfl, part,
    show 7 = (hostCmdThrusters :: (tkSafety ++ [state])).length from rfl, whole]
  simp only [List.foldl_cons, List.foldl_append, List.foldl_nil, tkSafety, BitVec.add_zero]
  ac_rfl

/-- The scratch variables after the parameters of a safety frame. -/
def receivedSafety (state : Byte) : Mem where
  rxBuf := store m.rxBuf 0 tkSafety
  t1 := state.toNat
  t2 := (chksum (bufOf (hostCmdThrusters :: (tkSafety ++ [state]))) 7 0#8).toNat
  diagMsg := m.diagMsg

theorem exec_thrusters (state : Byte) : exec answer 1 (caseThrusters m)
      ⟨tkSafety ++ [state, chksum (bufOf (hostCmdThrusters :: (tkSafety ++ [state]))) 7 0#8], [], []⟩ =
    if state.toNat ≤ 11 then (tkCommands[state.toNat]?).map fun data =>
      (((), receivedSafety m state), ⟨[], [(data, slaveIdThrusters)], [hostReplySuccess]⟩)
    else some (((), receivedSafety m state), ⟨[], [], [hostReplyBadchksum]⟩) := by
  have sum := safety_sum state [] m.rxBuf
  have safety := isSafety_store tkSafety [] m.rxBuf
  rw [List.append_nil] at sum safety
  have received := exec_receiveFrom m tkSafety
    [state, chksum (bufOf (hostCmdThrusters :: (tkSafety ++ [state]))) 7 0#8] [] [] 0 (by decide)
  rw [show tkSafety.length = 5 from rfl] at received
  simp only [caseThrusters, exec_all_bind, received, Option.bind_some, exec_lift, exec_waitchar, setT1, setT2, exec_modify,
    exec_get, exec_ite, safety, sum, not_true_eq_false, ne_eq, false_or, or_false]
  by_cases valid : state.toNat ≤ 11
  · rw [if_neg (by omega), if_pos valid, exec_entry]
    cases tkCommands[state.toNat]? <;> simp [receivedSafety]
  · rw [if_pos (by omega), if_neg valid]
    simp [receivedSafety]

theorem setThrusterSafety_agrees (v : Int) :
    Agrees (SensorApi.setThrusterSafety v) (sumFrame hostCmdThrusters (tkSafety ++ [toByte v]))
      (fun _ => Selects tkCommands slaveIdThrusters v) m := by
  have whole : runCommand m (sumFrame hostCmdThrusters (tkSafety ++ [toByte v])) =
      if (toByte v).toNat ≤ 11 then (tkCommands[(toByte v).toNat]?).map fun data =>
        (receivedSafety m (toByte v), ⟨[], [(data, slaveIdThrusters)], [hostReplySuccess]⟩)
      else some (receivedSafety m (toByte v), ⟨[], [], [hostReplyBadchksum]⟩) := by
    rw [sumFrame, runCommand_eq]
    show (exec answer 1 (caseThrusters m) _).map _ = _
    rw [List.append_assoc]
    refine (congrArg _ (exec_thrusters m (toByte v))).trans ?_
    split
    · rw [Option.map_map]
      rfl
    · rfl
  have sends : sumFrame hostCmdThrusters (tkSafety ++ [toByte v]) ∈ SensorApi.sent (SensorApi.setThrusterSafety v) ↔
      0 ≤ v ∧ v ≤ 11 := by
    have frame := sent_sumFrame hostCmdThrusters (tkSafety ++ [toByte v]) (n := 8) rfl
    rw [SensorApi.setThrusterSafety, SensorApi.sent_ite]
    by_cases out : v < 0 ∨ v > 11
    · rw [if_pos out]
      simp
      omega
    · have same : SensorApi.sent (do
          if v > 5 then SensorApi.usleep (300 * 1000)
          SensorApi.exchange (SensorApi.withSum (hostCmdThrusters :: (tkSafety ++ [toByte v]))) 8) =
          [sumFrame hostCmdThrusters (tkSafety ++ [toByte v])] := by
        rw [← frame]
        split <;> rfl
      rw [if_neg out]
      constructor
      · intro _
        omega
      · intro _
        exact same ▸ List.mem_singleton_self _
  rw [Agrees, sends, performs_iff (by decide) whole, show tkCommands.length = 12 from rfl]
  constructor
  · rintro ⟨low, high⟩
    have := toNat_toByte low (by omega)
    omega
  · omega

/-- The master's answer to the frame of a derpy speed. -/
theorem run_setDerpy (s : Int) : runCommand m (sumFrame hostCmdSetDerpy (speedBytes s ++ derpText)) =
    some (receivedFrame m hostCmdSetDerpy (speedBytes s ++ derpText),
      ⟨[], [(busCmdSetDerpy, slaveIdMotor), (motorByte s, slaveIdMotor)], [hostReplySuccess]⟩) := by
  rw [sumFrame, runCommand_eq]
  show (exec answer 1 (caseSetDerpy m) _).map _ = _
  have sum := receivedFrame_sum m hostCmdSetDerpy (speedBytes s ++ derpText) (n := 6) rfl
  have text : isSafety derpText (fun i => (receivedFrame m hostCmdSetDerpy (speedBytes s ++ derpText)).rxBuf (i + 2)) =
      true := rfl
  have converted : convertSpeed ((receivedFrame m hostCmdSetDerpy (speedBytes s ++ derpText)).rxBuf 0)
      ((receivedFrame m hostCmdSetDerpy (speedBytes s ++ derpText)).rxBuf 1) = motorByte s := rfl
  simp only [caseSetDerpy, exec_all_bind,
    exec_receiveFrame m hostCmdSetDerpy (speedBytes s ++ derpText) (n := 7) rfl (by decide), Option.bind_some, exec_get,
    exec_ite, sum, ne_eq, not_true_eq_false, ↓reduceIte, text, converted, exec_writeOrFail, exec_success]
  rfl

/-- The host sends every speed; the board has a byte for some of them. -/
theorem setDerpySpeed_agrees (s : Int) :
    Agrees (SensorApi.setDerpySpeed s) (sumFrame hostCmdSetDerpy (speedBytes s ++ derpText))
      (fun _ written => ∃ b : Byte, (b.toNat : Int) = scaled s ∧
        written = [(busCmdSetDerpy, slaveIdMotor), (b, slaveIdMotor)]) m ↔ -1285 ≤ s ∧ s ≤ 1285 := by
  have sends : SensorApi.sent (SensorApi.setDerpySpeed s) = [sumFrame hostCmdSetDerpy (speedBytes s ++ derpText)] :=
    sent_sumFrame hostCmdSetDerpy (speedBytes s ++ derpText) (n := 8) rfl
  have byte : (∃ b : Byte, (b.toNat : Int) = scaled s ∧ [(busCmdSetDerpy, slaveIdMotor), (motorByte s, slaveIdMotor)] =
      [(busCmdSetDerpy, slaveIdMotor), (b, slaveIdMotor)]) ↔ -1285 ≤ s ∧ s ≤ 1285 := by
    constructor
    · rintro ⟨b, value, -⟩
      have := b.isLt
      exact (scaled_byte s).mp (by omega)
    · rintro ⟨low, high⟩
      exact ⟨motorByte s, motorByte_toNat low high, rfl⟩
  rw [Agrees, sends, run_setDerpy]
  simp only [List.mem_singleton, Option.some.injEq, exists_eq_left', true_and, true_iff]
  exact byte

/-! ### All of them -/

/-- The commands of the host that carry a parameter. -/
inductive Request where
  | thrusterSafety (state : Int)
  | barState (state : Int)
  | barOutputs (bars : Int)
  | batteryState (state : Int)
  | marker (markerNum : Int)
  | diagnostics (state : Int)
  | ovrParams (a b : Int)
  | derpySpeed (speed : Int)

namespace Request

/-- What the host does for a command. -/
def send : Request → Host Int
  | .thrusterSafety state => SensorApi.setThrusterSafety state
  | .barState state => SensorApi.setBarState state
  | .barOutputs bars => SensorApi.setBarOutputs bars
  | .batteryState state => SensorApi.setBatteryState state
  | .marker markerNum => SensorApi.dropMarker markerNum
  | .diagnostics state => SensorApi.setDiagnostics state
  | .ovrParams a b => SensorApi.setOvrParams a b
  | .derpySpeed speed => SensorApi.setDerpySpeed speed

/-- The frame for the value of a command. -/
def frame : Request → List Byte
  | .thrusterSafety state => sumFrame hostCmdThrusters (tkSafety ++ [toByte state])
  | .barState state => paramFrame hostCmdBars state
  | .barOutputs bars => paramFrame hostCmdSetBars bars
  | .batteryState state => paramFrame hostCmdBattctl state
  | .marker markerNum => paramFrame hostCmdMarker markerNum
  | .diagnostics state => paramFrame hostCmdRuntimediag state
  | .ovrParams a b => sumFrame hostCmdSetOvrlimit [toByte a, toByte b]
  | .derpySpeed speed => sumFrame hostCmdSetDerpy (speedBytes speed ++ derpText)

/-- The board did what the value of the command asks for. -/
def Done (m : Mem) (written : List (Byte × Byte)) : Request → Prop
  | .thrusterSafety state => Selects tkCommands slaveIdThrusters state written
  | .barState state => Selects barCommands slaveIdBars state written
  | .barOutputs bars => ∃ b : Byte, (b.toNat : Int) = bars ∧ written = [(busCmdSetBars, slaveIdBars), (b, slaveIdBars)]
  | .batteryState state => Selects battCommands slaveIdBattstat state written
  | .marker markerNum => Selects [busCmdMarker1, busCmdMarker2] slaveIdMarkers markerNum written
  | .diagnostics state => (m.diagMsg.toNat : Int) = state
  | .ovrParams a b => ∃ x y : Byte, (x.toNat : Int) = a ∧ (y.toNat : Int) = b ∧ written =
      ([busCmdWriteReg, 0, x, busCmdWriteReg, 1, y].map fun data => (data, slaveIdThrusters))
  | .derpySpeed speed => ∃ b : Byte, (b.toNat : Int) = scaled speed ∧
      written = [(busCmdSetDerpy, slaveIdMotor), (b, slaveIdMotor)]

/-- The values that both sides treat alike, when the board has `m`. -/
def Shared (m : Mem) : Request → Prop
  | .thrusterSafety _ => True
  | .barState state => state ≠ 16
  | .barOutputs bars => bars ≠ 256
  | .batteryState state => if m.t1 ≤ 9 then state ≠ 11 else state < 0 ∨ 10 < state
  | .marker markerNum => markerNum ≠ 2
  | .diagnostics state => state ≠ 2
  | .ovrParams _ _ => True
  | .derpySpeed speed => -1285 ≤ speed ∧ speed ≤ 1285

end Request

/-- Host and board agree on a value if and only if it is not one past the end of its range
    or, for a battery, not one that a leftover decides, or, for a speed, one with a byte. -/
theorem request_agrees (c : Request) : Agrees c.send c.frame (fun m' written => c.Done m' written) m ↔ c.Shared m := by
  cases c with
  | thrusterSafety state => exact iff_true_intro (setThrusterSafety_agrees m state)
  | barState state => exact setBarState_agrees m state
  | barOutputs bars => exact setBarOutputs_agrees m bars
  | batteryState state => exact setBatteryState_agrees m state
  | marker markerNum => exact dropMarker_agrees m markerNum
  | diagnostics state => exact setDiagnostics_agrees m state
  | ovrParams a b => exact iff_true_intro (setOvrParams_agrees m a b)
  | derpySpeed speed => exact setDerpySpeed_agrees m speed

/-- The host sends a third marker, which the board does not have. -/
theorem marker_refused : ¬ ∀ (m : Mem) (c : Request),
    Agrees c.send c.frame (fun m' written => c.Done m' written) m := by
  intro agree
  have third := agree memory (.marker 2)
  exact (dropMarker_agrees memory 2).mp third rfl

end Tortuga.HostBoard
