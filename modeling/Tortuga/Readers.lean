import Tortuga.SensorApi

/-!
The readers of the driver (`sensorapi.c`), and what they make of replies that are cut
short. No reader looks at the result of a read.
-/
namespace Tortuga.Readers
open Tortuga.Programs Tortuga.BusCodes Tortuga.SensorApi
set_option linter.unusedSimpArgs false

/-! ### Values -/

/-- `buf[i]<<8 | buf[i+1]`. -/
def word (buf : Buf) (i : ℕ) : ℕ := (buf i).toNat <<< 8 ||| (buf (i + 1)).toNat

/-- `(signed short) (buf[i]<<8 | buf[i+1])`. -/
def short (buf : Buf) (i : ℕ) : Int := (BitVec.ofNat 16 (word buf i)).toInt

/-- `(buf[i]<<24) | (buf[i+1] << 16) | (buf[i+2] << 8) | buf[i+3]`. -/
def long (buf : Buf) (i : ℕ) : ℕ :=
  (buf i).toNat <<< 24 ||| (buf (i + 1)).toNat <<< 16 ||| (buf (i + 2)).toNat <<< 8 ||| (buf (i + 3)).toNat

/-- `struct sonarData`, with its vector in ten-thousandths. -/
structure SonarData where
  vectorX : Int
  vectorY : Int
  vectorZ : Int
  status : Byte
  range : ℕ
  timeStampSec : ℕ
  timeStampUSec : ℕ
  pingerID : Byte

/-- What the readers fill of `struct powerInfo`, in thousandths. -/
structure PowerInfo where
  motorCurrents : List ℕ
  v12VBus : ℕ
  v5VBus : ℕ
  i12VBus : ℕ
  i5VBus : ℕ
  iAux : ℕ
  v26VBus : ℕ
  battVoltages : List ℕ
  battCurrents : List ℕ

/-! ### Shared steps -/

/-- A repeated command whose reply begins with `reply`, or with a `bad` byte. -/
def request {α : Type} (buf : Buf) (reply : Byte) (bad : Byte → α) (rest : Buf → Host α) : Host α := do
  writeData buf 2
  let (_, buf) ← readData buf 0 1
  if buf 0 ≠ reply then return bad (buf 0) else rest buf

/-- The rest of a reply, at `buf + offset`, when the checksum is its last byte. -/
def readRest {α : Type} (offset size : ℕ) (ok : Buf → Bool) (wrong : α) (good : Buf → α) (buf : Buf) : Host α := do
  let (_, buf) ← readData buf offset size
  if ok buf then return good buf else return wrong

/-- The rest of a reply, when it has an array of its own and the checksum goes to `buf[0]`. -/
def readData2 {α : Type} (data : Buf) (size : ℕ) (reply : Byte) (wrong good : Buf → α) (buf : Buf) : Host α := do
  let (_, data) ← readData data 0 size
  let (_, buf) ← readData buf 0 1
  if ((List.range size).map data).foldl (· + ·) reply = buf 0 then return good data else return wrong data

/-- A byte that is no reply to a command about power. -/
def badReply (code : Byte) : Int :=
  if code = hostReplyBadchksum then sbBadcc else if code = hostReplyFailure then sbHwfail else sbError

/-- An array on the stack, of which two bytes are set. -/
def withCmd (stack : Buf) (cmd : Byte) : Buf := store stack 0 [cmd, cmd]

/-! ### Readers -/

def readDepth : Host Int :=
  request (bufOf [hostCmdDepth, hostCmdDepth]) hostReplyDepth (fun _ => sbError)
    (readRest 0 3 (fun buf => 0x03#8 + buf 0 + buf 1 = buf 2) sbError (fun buf => word buf 0))

def simpleRead (stack : Buf) (cmdCode replyCode : Byte) : Host Int :=
  request (withCmd stack cmdCode) replyCode (fun _ => sbError)
    (readRest 0 2 (fun buf => replyCode + buf 0 = buf 1) sbError (fun buf => (buf 0).toNat))

def readStatus (stack : Buf) : Host Int :=
  request (withCmd stack hostCmdBoardstatus) hostReplyBoardstatus (fun _ => sbError)
    (readRest 0 3 (fun buf => buf 2 = buf 0 + buf 1 + hostReplyBoardstatus) sbError (fun buf => word buf 0))

def readThrusterState (stack : Buf) : Host Int := simpleRead stack hostCmdThrusterstate hostReplyThrusterstate
def readBatteryEnables (stack : Buf) : Host Int := simpleRead stack hostCmdBattstate hostReplyBattstate
def readBarState (stack : Buf) : Host Int := simpleRead stack hostCmdBarstate hostReplyBarstate
def readOvrState (stack : Buf) : Host Int := simpleRead stack hostCmdReadOvr hostReplyOvr

/-- The result, and `tempData`. -/
def readTemp (tempData : Buf) : Host (Int × Buf) :=
  let zero := store tempData 0 (List.replicate numTempSensors 0)
  request (bufOf [hostCmdTemperature, hostCmdTemperature]) 0x0B#8 (fun _ => (sbError, zero))
    (readData2 zero numTempSensors 0x0B#8 (fun data => (sbError, data)) (fun data => (sbOk, data)))

/-- What `getSonarData` makes of the packet. -/
def sonarOf (rawSonar : Buf) : SonarData where
  vectorX := short rawSonar 1
  vectorY := short rawSonar 3
  vectorZ := short rawSonar 7
  status := rawSonar 5
  range := word rawSonar 9
  timeStampSec := long rawSonar 12
  timeStampUSec := long rawSonar 17
  pingerID := 0

/-- The result, and what `sd` points to. -/
def getSonarData : Option SonarData → Host (Int × Option SonarData)
  | none => return (-1, none)
  | some sd =>
    request (bufOf [hostCmdSonar, hostCmdSonar]) 0x0E#8 (fun _ => (sbError, some sd))
      (readData2 (bufOf []) 22 0x0E#8 (fun _ => (sbError, some sd)) (fun rawSonar => (sbOk, some (sonarOf rawSonar))))

/-- A command about power: the result, and what `info` points to. -/
def readPower (cmd reply : Byte) (size : ℕ) (fill : PowerInfo → Buf → PowerInfo) :
    Option PowerInfo → Host (Int × Option PowerInfo)
  | none => return (sbError, none)
  | some info =>
    request (bufOf [cmd, cmd]) reply (fun code => (badReply code, some info))
      (readRest 1 size (fun buf => chksum buf size 0#8 = buf size) (sbBadcc, some info)
        (fun buf => (sbOk, some (fill info buf))))

/-- `count` numbers of a reply about power. -/
def words (count : ℕ) (buf : Buf) : List ℕ := (List.range count).map fun i => word buf (i * 2 + 1)

def readMotorCurrents : Option PowerInfo → Host (Int × Option PowerInfo) :=
  readPower hostCmdImotor hostReplyImotor 17 fun info buf => { info with motorCurrents := words 8 buf }

def readBoardVoltages : Option PowerInfo → Host (Int × Option PowerInfo) :=
  readPower hostCmdVlow hostReplyVlow 11 fun info buf =>
    { info with
      v5VBus := word buf 1
      i5VBus := word buf 3
      v12VBus := word buf 5
      i12VBus := word buf 7
      iAux := word buf 9 }

def readBatteryVoltages : Option PowerInfo → Host (Int × Option PowerInfo) :=
  readPower hostCmdBattvoltage hostReplyBattvoltage 15 fun info buf =>
    { info with battVoltages := words 6 buf, v26VBus := word buf 13 }

def readBatteryCurrents : Option PowerInfo → Host (Int × Option PowerInfo) :=
  readPower hostCmdBattcurrent hostReplyBattcurrent 13 fun info buf => { info with battCurrents := words 6 buf }

/-- The result, and what `a` and `b` point to. -/
def readOvrParams (stack : Buf) : Option (ℕ × ℕ) → Host (Int × Option (ℕ × ℕ))
  | none => return (sbError, none)
  | some limits =>
    request (withCmd stack hostCmdReadOvrlimit) hostReplyOvrlimit (fun _ => (sbError, some limits))
      (readRest 1 3 (fun buf => buf 0 + buf 1 + buf 2 = buf 3) (sbBadcc, some limits)
        (fun buf => (sbOk, some ((buf 1).toNat, (buf 2).toNat))))

/-! ### What the board delivers -/

/-- The answers to the reads, in order: the bytes that a read gets, or none when it times
    out. -/
abbrev Board := List (Option (List Byte))

def board (answers : Board) : (o : Op) → Ans o × Board
  | .writeData _ => ((), answers)
  | .readData _ => (answers.head?.join, answers.tail)
  | .usleep _ => ((), answers)

/-- What a reader returns. -/
def returned {α : Type} (p : Host α) (answers : Board) : Option α := (exec board 0 p answers).map (·.1)

/-- A reader returns at the end of a run whose reads are answered in order. -/
theorem returned_run {α : Type} {p : Host α} {answers : Board} {a : α} (found : returned p answers = some a) :
    ∃ (tr : List (Event Op Ans Empty Empty)) (rest : Board), Run p tr (.ret a) ∧ Answers board answers tr rest := by
  obtain ⟨⟨_, rest⟩, executed, rfl⟩ := Option.map_eq_some_iff.mp found
  obtain ⟨tr, run, answered⟩ := exec_run executed
  exact ⟨tr, rest, run, answered⟩

/-- The bytes that the next read gets, of the `size` asked for. -/
def got (size : ℕ) (answers : Board) : List Byte := (answers.head?.join.getD []).take size

/-- The bytes that reads of these sizes get. -/
def delivered : List ℕ → Board → List Byte
  | [], _ => []
  | size :: sizes, answers => got size answers ++ delivered sizes answers.tail

/-- The arrays after such reads, from what they held. -/
def filled : List (List Byte) → Board → List Byte
  | [], _ => []
  | held :: rest, answers =>
    got held.length answers ++ held.drop (got held.length answers).length ++ filled rest answers.tail

/-- The bytes that these reads ask for. -/
def total : List ℕ → ℕ
  | [] => 0
  | size :: sizes => size + total sizes

theorem got_length_le (size : ℕ) (answers : Board) : (got size answers).length ≤ size := List.length_take_le _ _

theorem delivered_length_le (sizes : List ℕ) (answers : Board) : (delivered sizes answers).length ≤ total sizes := by
  induction sizes generalizing answers with
  | nil => simp [delivered]
  | cons size sizes ih =>
    have first := got_length_le size answers
    have rest := ih answers.tail
    simp only [delivered, List.length_append, total]
    omega

/-- Nothing is left of what the arrays held when every read gets all its bytes. -/
theorem filled_eq_delivered (held : List (List Byte)) (answers : Board)
    (whole : (delivered (held.map List.length) answers).length = total (held.map List.length)) :
    filled held answers = delivered (held.map List.length) answers := by
  induction held generalizing answers with
  | nil => rfl
  | cons cells rest ih =>
    have first := got_length_le cells.length answers
    have later := delivered_length_le (rest.map List.length) answers.tail
    simp only [List.map_cons, delivered, List.length_append, total] at whole
    have all : (got cells.length answers).length = cells.length := by omega
    rw [filled, List.map_cons, delivered, ih answers.tail (by omega), all, List.drop_length, List.append_nil]

/-! ### Arrays -/

/-- Cells of an array. -/
def window (buf : Buf) (offset size : ℕ) : List Byte := (List.range size).map fun i => buf (offset + i)

@[simp] theorem window_length (buf : Buf) (offset size : ℕ) : (window buf offset size).length = size := by
  simp [window]

/-- A read that is cut short leaves the rest of the array as it was. -/
theorem window_store (buf : Buf) (offset size : ℕ) (bytes : List Byte) (fits : bytes.length ≤ size) :
    window (store buf offset bytes) offset size = bytes ++ (window buf offset size).drop bytes.length := by
  refine List.ext_getElem (by simp; omega) (fun i low _ => ?_)
  rw [window_length] at low
  by_cases inside : i < bytes.length
  · simp [window, store, inside]
  · simp [window, store, inside, List.getElem_append_right (Nat.le_of_not_lt inside)]
    congr 1
    omega

/-- The last of the cells is the sum of the reply code and the cells before. -/
def Sums (code : Byte) (cells : List Byte) : Prop := cells.getLast? = some (cells.dropLast.foldl (· + ·) code)

instance (code : Byte) (cells : List Byte) : Decidable (Sums code cells) := inferInstanceAs (Decidable (_ = _))

theorem sums_append (code : Byte) (cells : List Byte) (last : Byte) :
    Sums code (cells ++ [last]) ↔ cells.foldl (· + ·) code = last := by
  rw [Sums, List.getLast?_append, List.getLast?_singleton, List.dropLast_concat, Option.some_or, Option.some.injEq,
    eq_comm]

theorem window_succ (buf : Buf) (offset size : ℕ) :
    window buf offset (size + 1) = window buf offset size ++ [buf (offset + size)] := by
  simp [window, List.range_succ]

/-! ### The two shapes of readers -/

theorem exec_readData (buf : Buf) (offset size : ℕ) (answers : Board) :
    ∃ r, exec board 0 (readData buf offset size) answers =
      some ((r, store buf offset (got size answers)), answers.tail) := by
  simp only [readData, exec_ask, board, got]
  cases answers.head?.join with
  | none => exact ⟨sbIoerror, by simp⟩
  | some bytes => exact ⟨_, rfl⟩

/-- The first byte of a reply is the one that came, when the command is no reply code. -/
theorem first_iff {buf : Buf} {reply : Byte} (other : buf 0 ≠ reply) (answers : Board) :
    store buf 0 (got 1 answers) 0 = reply ↔ got 1 answers = [reply] := by
  have short := got_length_le 1 answers
  cases bytes : got 1 answers with
  | nil => simp [other]
  | cons b rest =>
    rw [bytes, List.length_cons] at short
    obtain rfl := List.length_eq_zero_iff.mp (by omega : rest.length = 0)
    simp [store]

theorem returned_request {α : Type} {buf : Buf} {reply : Byte} (other : buf 0 ≠ reply) (bad : Byte → α)
    (rest : Buf → Host α) (answers : Board) : returned (request buf reply bad rest) answers =
      if got 1 answers = [reply] then returned (rest (store buf 0 [reply])) answers.tail
      else some (bad (store buf 0 (got 1 answers) 0)) := by
  obtain ⟨r, executed⟩ := exec_readData buf 0 1 answers
  have first := first_iff other answers
  simp only [returned, request, writeData, Prog.bind_eq, exec_bind, exec_ask, exec_ret, board, Option.bind_some, executed]
  by_cases came : got 1 answers = [reply]
  · have cell := first.mpr came
    rw [came] at cell ⊢
    simp [cell]
  · simp [mt first.mp came, came]

theorem returned_readRest {α : Type} (offset size : ℕ) (ok : Buf → Bool) (wrong : α) (good : Buf → α) (buf : Buf)
    (answers : Board) : returned (readRest offset size ok wrong good buf) answers =
      some (if ok (store buf offset (got size answers)) then good (store buf offset (got size answers)) else wrong) := by
  obtain ⟨r, executed⟩ := exec_readData buf offset size answers
  simp only [returned, readRest, Prog.bind_eq, exec_bind, Option.bind_some, executed]
  cases ok (store buf offset (got size answers)) <;> rfl

theorem returned_readData2 {α : Type} (data : Buf) (size : ℕ) (reply : Byte) (wrong good : Buf → α) (buf : Buf)
    (answers : Board) : returned (readData2 data size reply wrong good buf) answers =
      some (if (window (store data 0 (got size answers)) 0 size).foldl (· + ·) reply = store buf 0 (got 1 answers.tail) 0
        then good (store data 0 (got size answers)) else wrong (store data 0 (got size answers))) := by
  obtain ⟨r, executed⟩ := exec_readData data 0 size answers
  obtain ⟨r', executed'⟩ := exec_readData buf 0 1 answers.tail
  simp only [returned, readData2, Prog.bind_eq, exec_bind, Option.bind_some, executed, executed', window, Nat.zero_add]
  split <;> rfl

section
variable {α : Type} (value : α → Int) {init : Buf} {reply : Byte} {bad : Byte → α}
  (other : init 0 ≠ reply) (refused : ∀ b, value (bad b) < 0)
include other refused

/-- A reader of the first shape succeeds exactly when the reply code came and the array
    adds up. -/
theorem accepts_rest {offset size : ℕ} {ok : Buf → Bool} {wrong : α} {good : Buf → α} (fails : value wrong < 0)
    (succeeds : ∀ b, 0 ≤ value (good b)) (sums : ∀ bytes : List Byte, ok (store (store init 0 [reply]) offset bytes) = true ↔
      Sums reply (window (store (store init 0 [reply]) offset bytes) offset size)) (answers : Board) :
    (∃ a, returned (request init reply bad (readRest offset size ok wrong good)) answers = some a ∧ 0 ≤ value a) ↔
      got 1 answers = [reply] ∧ Sums reply (filled [window (store init 0 [reply]) offset size] answers.tail) := by
  rw [returned_request other]
  by_cases came : got 1 answers = [reply]
  · have cells := window_store (store init 0 [reply]) offset size _ (got_length_le size answers.tail)
    rw [if_pos came, returned_readRest]
    simp only [filled, window_length, List.append_nil, true_and, ← cells, ← sums, Option.some.injEq, exists_eq_left']
    split
    next found => exact iff_of_true (succeeds _) ⟨came, found⟩
    next missed => exact iff_of_false (by omega) (fun both => missed both.2)
  · have low := refused (store init 0 (got 1 answers) 0)
    rw [if_neg came]
    simp only [came, false_and, Option.some.injEq, exists_eq_left', iff_false]
    omega

/-- A reader of the second shape, whose check byte takes the place of the reply code. -/
theorem accepts_data {size : ℕ} {data : Buf} {wrong good : Buf → α} (fails : ∀ b, value (wrong b) < 0)
    (succeeds : ∀ b, 0 ≤ value (good b)) (answers : Board) :
    (∃ a, returned (request init reply bad (readData2 data size reply wrong good)) answers = some a ∧ 0 ≤ value a) ↔
      got 1 answers = [reply] ∧ Sums reply (filled [window data 0 size, [reply]] answers.tail) := by
  rw [returned_request other]
  by_cases came : got 1 answers = [reply]
  · have cells := window_store data 0 size _ (got_length_le size answers.tail)
    have last := window_store (store init 0 [reply]) 0 1 _ (got_length_le 1 answers.tail.tail)
    have one (b : Buf) : window b 0 1 = [b 0] := rfl
    rw [if_pos came, returned_readData2]
    rw [one, one, show store init 0 [reply] 0 = reply from rfl] at last
    simp only [filled, window_length, List.length_singleton, List.append_nil, true_and, ← cells, ← last, sums_append,
      Option.some.injEq, exists_eq_left']
    split
    next found => exact iff_of_true (succeeds _) ⟨came, found⟩
    next missed =>
      have low := fails (store data 0 (got size answers.tail))
      exact iff_of_false (by omega) (fun both => missed both.2)
  · have low := refused (store init 0 (got 1 answers) 0)
    rw [if_neg came]
    simp only [came, false_and, Option.some.injEq, exists_eq_left', iff_false]
    omega

end

/-! ### All of them -/

/-- The readers of replies. -/
inductive Reader where
  | depth
  | status
  | thrusterState
  | batteryEnables
  | barState
  | ovrState
  | temp
  | sonar
  | motorCurrents
  | boardVoltages
  | batteryVoltages
  | batteryCurrents
  | ovrParams

/-- What a reader finds: arrays that are not set, and where its pointers point. -/
structure Place where
  stack : Buf
  tempData : Buf
  sd : Option SonarData
  info : Option PowerInfo
  limits : Option (ℕ × ℕ)

namespace Reader

/-- What a reader returns. -/
def result (place : Place) (answers : Board) : Reader → Option Int
  | depth => returned readDepth answers
  | status => returned (readStatus place.stack) answers
  | thrusterState => returned (readThrusterState place.stack) answers
  | batteryEnables => returned (readBatteryEnables place.stack) answers
  | barState => returned (readBarState place.stack) answers
  | ovrState => returned (readOvrState place.stack) answers
  | temp => (returned (readTemp place.tempData) answers).map (·.1)
  | sonar => (returned (getSonarData place.sd) answers).map (·.1)
  | motorCurrents => (returned (readMotorCurrents place.info) answers).map (·.1)
  | boardVoltages => (returned (readBoardVoltages place.info) answers).map (·.1)
  | batteryVoltages => (returned (readBatteryVoltages place.info) answers).map (·.1)
  | batteryCurrents => (returned (readBatteryCurrents place.info) answers).map (·.1)
  | ovrParams => (returned (readOvrParams place.stack place.limits) answers).map (·.1)

/-- The first byte of the reply. -/
def code : Reader → Byte
  | depth => hostReplyDepth
  | status => hostReplyBoardstatus
  | thrusterState => hostReplyThrusterstate
  | batteryEnables => hostReplyBattstate
  | barState => hostReplyBarstate
  | ovrState => hostReplyOvr
  | temp => hostReplyTemperature
  | sonar => hostReplySonar
  | motorCurrents => hostReplyImotor
  | boardVoltages => hostReplyVlow
  | batteryVoltages => hostReplyBattvoltage
  | batteryCurrents => hostReplyBattcurrent
  | ovrParams => hostReplyOvrlimit

/-- The pointer of a reader that has one is not NULL. -/
def Given (place : Place) : Reader → Prop
  | sonar => place.sd.isSome = true
  | motorCurrents | boardVoltages | batteryVoltages | batteryCurrents => place.info.isSome = true
  | ovrParams => place.limits.isSome = true
  | _ => True

/-- What the arrays hold where the rest of the reply goes, when its first byte has come:
    that byte, the command, zeros, and what was on the stack. -/
def stale (place : Place) : Reader → List (List Byte)
  | depth => [[hostReplyDepth, hostCmdDepth, 0]]
  | status => [[hostReplyBoardstatus, hostCmdBoardstatus, place.stack 2]]
  | thrusterState => [[hostReplyThrusterstate, hostCmdThrusterstate]]
  | batteryEnables => [[hostReplyBattstate, hostCmdBattstate]]
  | barState => [[hostReplyBarstate, hostCmdBarstate]]
  | ovrState => [[hostReplyOvr, hostCmdReadOvr]]
  | temp => [List.replicate numTempSensors 0, [hostReplyTemperature]]
  | sonar => [List.replicate 22 0, [hostReplySonar]]
  | motorCurrents => [hostCmdImotor :: List.replicate 16 0]
  | boardVoltages => [hostCmdVlow :: List.replicate 10 0]
  | batteryVoltages => [hostCmdBattvoltage :: List.replicate 14 0]
  | batteryCurrents => [hostCmdBattcurrent :: List.replicate 12 0]
  | ovrParams => [[hostCmdReadOvrlimit, place.stack 2, place.stack 3]]

/-- The bytes that the reader asks for after the first of the reply. -/
def sizes : Reader → List ℕ
  | depth | status | ovrParams => [3]
  | thrusterState | batteryEnables | barState | ovrState => [2]
  | temp => [numTempSensors, 1]
  | sonar => [22, 1]
  | motorCurrents => [17]
  | boardVoltages => [11]
  | batteryVoltages => [15]
  | batteryCurrents => [13]

theorem stale_sizes (r : Reader) (place : Place) : (r.stale place).map List.length = r.sizes := by
  cases r <;> rfl

/-- The reader returns no error. -/
def Accepts (place : Place) (answers : Board) (r : Reader) : Prop := ∃ v, r.result place answers = some v ∧ 0 ≤ v

/-- The board delivered every byte of the reply, and its checksum is that of the bytes. -/
def Whole (answers : Board) (r : Reader) : Prop :=
  ∃ cells, delivered (1 :: r.sizes) answers = r.code :: cells ∧ cells.length = total r.sizes ∧ Sums r.code cells

/-- The reply begins right and is cut short, and the bytes that came add up with those
    that the arrays held. -/
def Deceived (place : Place) (answers : Board) (r : Reader) : Prop :=
  r.Given place ∧ got 1 answers = [r.code] ∧ (delivered r.sizes answers.tail).length < total r.sizes ∧
    Sums r.code (filled (r.stale place) answers.tail)

end Reader

/-- A result with something else is accepted for its first part. -/
theorem accepts_fst {α : Type} (found : Option (Int × α)) :
    (∃ v, found.map (·.1) = some v ∧ 0 ≤ v) ↔ ∃ a, found = some a ∧ 0 ≤ a.1 := by
  constructor
  · rintro ⟨v, same, low⟩
    obtain ⟨a, here, rfl⟩ := Option.map_eq_some_iff.mp same
    exact ⟨a, here, low⟩
  · rintro ⟨a, rfl, low⟩
    exact ⟨a.1, rfl, low⟩

theorem sbError_neg : sbError < 0 := by decide
theorem sbBadcc_neg : sbBadcc < 0 := by decide

theorem badReply_neg (b : Byte) : badReply b < 0 := by
  unfold badReply
  split
  · decide
  · split <;> decide

/-- The sum of an array that has the reply code in its first cell. -/
theorem sum_iff (buf : Buf) (size : ℕ) : chksum buf (size + 1) 0#8 = buf (size + 1) ↔ Sums (buf 0) (window buf 1 (size + 1)) := by
  have cells : (List.range (size + 1)).map buf = buf 0 :: window buf 1 size := by
    simp [List.range_succ_eq_map, window, Nat.add_comm]
  rw [window_succ, sums_append, chksum_eq, cells, List.foldl_cons, BitVec.zero_add, BitVec.add_zero, Nat.add_comm]

theorem simpleRead_accepts {cmdCode replyCode : Byte} (other : cmdCode ≠ replyCode) (stack : Buf) (answers : Board) :
    (∃ v, returned (simpleRead stack cmdCode replyCode) answers = some v ∧ 0 ≤ v) ↔
      got 1 answers = [replyCode] ∧ Sums replyCode (filled [[replyCode, cmdCode]] answers.tail) := by
  refine accepts_rest id other (fun _ => by decide) (by decide) (fun _ => Int.natCast_nonneg _) (fun bytes => ?_) answers
  rw [decide_eq_true_eq]
  exact (sums_append replyCode [_] _).symm

theorem readPower_accepts {cmd reply : Byte} (other : cmd ≠ reply) (size : ℕ) (fill : PowerInfo → Buf → PowerInfo)
    (info : Option PowerInfo) (answers : Board) :
    (∃ v, (returned (readPower cmd reply (size + 1) fill info) answers).map (·.1) = some v ∧ 0 ≤ v) ↔
      info.isSome = true ∧ got 1 answers = [reply] ∧
        Sums reply (filled [cmd :: List.replicate size 0] answers.tail) := by
  rw [accepts_fst]
  cases info with
  | none => simp [readPower, returned]
  | some info =>
    have held : window (store (bufOf [cmd, cmd]) 0 [reply]) 1 (size + 1) = cmd :: List.replicate size 0 := by
      refine List.ext_getElem (by simp) (fun i _ _ => ?_)
      cases i with
      | zero => simp [window, store, bufOf]
      | succ i =>
        have past : [cmd, cmd][1 + (i + 1)]? = none := List.getElem?_eq_none (by simp; omega)
        simp [window, store, bufOf, past]
    rw [← held, readPower]
    refine .trans (accepts_rest (fun r : Int × Option PowerInfo => r.1) other ?_ ?_ ?_ (fun bytes => ?_) answers) ?_
    · exact badReply_neg
    · exact sbBadcc_neg
    · exact fun _ => Int.le_refl 0
    · rw [decide_eq_true_eq, sum_iff]
      rfl
    · simp

theorem accepts_iff (r : Reader) (place : Place) (answers : Board) : r.Accepts place answers ↔
    r.Given place ∧ got 1 answers = [r.code] ∧ Sums r.code (filled (r.stale place) answers.tail) := by
  cases r with
  | depth =>
    refine (accepts_rest id (by decide) (fun _ => by decide) (by decide) (fun _ => Int.natCast_nonneg _)
      (fun bytes => ?_) answers).trans (true_and _).symm.to_iff
    rw [decide_eq_true_eq]
    exact (sums_append hostReplyDepth [_, _] _).symm
  | status =>
    have other : hostCmdBoardstatus ≠ hostReplyBoardstatus := by decide
    refine (accepts_rest id other (fun _ => by decide) (by decide) (fun _ => Int.natCast_nonneg _)
      (fun bytes => ?_) answers).trans (true_and _).symm.to_iff
    rw [decide_eq_true_eq, eq_comm, BitVec.add_comm, ← BitVec.add_assoc]
    exact (sums_append hostReplyBoardstatus [_, _] _).symm
  | thrusterState | batteryEnables | barState | ovrState =>
    exact (simpleRead_accepts (by decide) place.stack answers).trans (true_and _).symm.to_iff
  | temp =>
    rw [Reader.Accepts, Reader.result, accepts_fst, readTemp]
    refine .trans (accepts_data (fun r : Int × Buf => r.1) (by decide) ?_ ?_ ?_ answers) (true_and _).symm.to_iff
    · exact fun _ => sbError_neg
    · exact fun _ => sbError_neg
    · exact fun _ => Int.le_refl 0
  | sonar =>
    rw [Reader.Accepts, Reader.result, accepts_fst]
    cases given : place.sd with
    | none => simp [getSonarData, returned, Reader.Given, given]
    | some sd =>
      rw [getSonarData]
      refine .trans (accepts_data (fun r : Int × Option SonarData => r.1) (by decide) ?_ ?_ ?_ answers) ?_
      · exact fun _ => sbError_neg
      · exact fun _ => sbError_neg
      · exact fun _ => Int.le_refl 0
      · rw [Reader.Given, given]
        exact (and_iff_right rfl).symm
  | motorCurrents | boardVoltages | batteryVoltages | batteryCurrents =>
    exact readPower_accepts (by decide) _ _ place.info answers
  | ovrParams =>
    rw [Reader.Accepts, Reader.result, accepts_fst]
    cases given : place.limits with
    | none => simp [readOvrParams, returned, Reader.Given, given]
    | some limits =>
      rw [readOvrParams]
      have other : hostCmdReadOvrlimit ≠ hostReplyOvrlimit := by decide
      refine .trans (accepts_rest (fun r : Int × Option (ℕ × ℕ) => r.1) other ?_ ?_ ?_ (fun bytes => ?_) answers) ?_
      · exact fun _ => sbError_neg
      · exact sbBadcc_neg
      · exact fun _ => Int.le_refl 0
      · rw [decide_eq_true_eq]
        exact (sums_append hostReplyOvrlimit [_, _] _).symm
      · rw [Reader.Given, given]
        exact (and_iff_right rfl).symm

namespace Reader

/-- A reader that accepts a reply has got all of it if and only if it is not deceived. -/
theorem honest_iff (r : Reader) (place : Place) (answers : Board) :
    (r.Accepts place answers → r.Whole answers) ↔ ¬ r.Deceived place answers := by
  have short := delivered_length_le r.sizes answers.tail
  rw [accepts_iff]
  constructor
  · rintro honest ⟨given, first, cut, sums⟩
    obtain ⟨cells, same, length, -⟩ := honest ⟨given, first, sums⟩
    rw [delivered, first, List.singleton_append, List.cons.injEq] at same
    rw [same.2] at cut
    omega
  · rintro honest ⟨given, first, sums⟩
    have all : (delivered r.sizes answers.tail).length = total r.sizes := by
      by_contra cut
      exact honest ⟨given, first, by omega, sums⟩
    rw [← r.stale_sizes place] at all
    rw [filled_eq_delivered (r.stale place) answers.tail all, r.stale_sizes place] at sums
    rw [r.stale_sizes place] at all
    exact ⟨delivered r.sizes answers.tail, by rw [delivered, first, List.singleton_append], all, sums⟩

end Reader

/-- Success means a whole valid frame exactly when no short reply adds up with what the
    arrays held. -/
theorem success_whole (place : Place) (answers : Board) (r : Reader) :
    (∀ v, r.result place answers = some v → 0 ≤ v → r.Whole answers) ↔ ¬ r.Deceived place answers := by
  rw [← r.honest_iff place answers]
  constructor
  · rintro honest ⟨v, found, low⟩
    exact honest v found low
  · intro honest v found low
    exact honest ⟨v, found, low⟩

/-- Arrays full of zeros, and pointers to something. -/
def somewhere : Place where
  stack := bufOf []
  tempData := bufOf []
  sd := some ⟨0, 0, 0, 0, 0, 0, 0, 0⟩
  info := some ⟨[], 0, 0, 0, 0, 0, 0, [], []⟩
  limits := some (0, 0)

/-- After the first byte of a reply with the temperatures nothing more comes, and `readTemp`
    returns `SB_OK`. -/
theorem temp_invented : ¬ ∀ (place : Place) (answers : Board) (r : Reader) (v : Int),
    r.result place answers = some v → 0 ≤ v → r.Whole answers := by
  intro honest
  obtain ⟨cells, same, length, -⟩ := honest somewhere [some [hostReplyTemperature], none, none] .temp sbOk rfl (by decide)
  obtain rfl : [] = cells := (List.cons.inj same).2
  exact absurd length (by decide)

end Tortuga.Readers
