import Tortuga.Programs
import Tortuga.BusCodes

/-!
The driver of the sensor board on the host (`sensorapi.c`): the frames it writes and the
replies it reads. A read ends with a timeout or gets some of the bytes asked for.
-/
namespace Tortuga.SensorApi
open Tortuga.Programs Tortuga.BusCodes
set_option linter.unusedSimpArgs false

abbrev sbOk : Int := 0
abbrev sbIoerror : Int := -4
abbrev sbBadcc : Int := -3
abbrev sbHwfail : Int := -2
abbrev sbError : Int := -1
abbrev numTempSensors : ℕ := 7

inductive Op where
  | writeData (bytes : List Byte)
  | readData (nbytes : ℕ)
  | usleep (usec : ℕ)
  deriving DecidableEq, Repr

/-- A read is answered by the bytes that it gets, or by none when `poll` times out. -/
abbrev Ans : Op → Type
  | .writeData _ => Unit
  | .readData _ => Option (List Byte)
  | .usleep _ => Unit

/-- The driver has no loop that waits. -/
abbrev Host := Prog Op Ans Empty

/-- An array of `unsigned char`. -/
abbrev Buf := ℕ → Byte

/-- The array with an initializer: what is not listed is zero. -/
def bufOf (bytes : List Byte) : Buf := fun i => bytes.getD i 0

def firstBytes (buf : Buf) (nbytes : ℕ) : List Byte := (List.range nbytes).map buf

/-- The array after `bytes` are stored from `buf + offset` on. -/
def store (buf : Buf) (offset : ℕ) (bytes : List Byte) : Buf := fun i =>
  if offset ≤ i then (bytes[i - offset]?).getD (buf i) else buf i

@[simp] theorem store_nil (buf : Buf) (offset : ℕ) : store buf offset [] = buf := by
  funext i
  simp [store]

theorem store_cons (buf : Buf) (offset : ℕ) (b : Byte) (bytes : List Byte) :
    store (Function.update buf offset b) (offset + 1) bytes = store buf offset (b :: bytes) := by
  funext i
  simp only [store, Function.update_apply]
  rcases Nat.lt_trichotomy i offset with low | same | high
  · rw [if_neg (by omega), if_neg (by omega), if_neg (by omega)]
  · rw [if_neg (by omega), if_pos same, if_pos (by omega)]
    simp [same]
  · rw [if_pos (by omega), if_neg (by omega), if_pos (by omega)]
    obtain ⟨k, rfl⟩ : ∃ k, i = offset + 1 + k := ⟨i - (offset + 1), by omega⟩
    have one : offset + 1 + k - (offset + 1) = k := by omega
    have two : offset + 1 + k - offset = k + 1 := by omega
    rw [one, two, List.getElem?_cons_succ]

theorem store_prefix (buf : Buf) (bytes rest : List Byte) :
    (List.range bytes.length).map (store buf 0 (bytes ++ rest)) = bytes := by
  refine List.ext_getElem (by simp) (fun i low _ => ?_)
  simp only [List.length_map, List.length_range] at low
  simp [store, List.getElem?_append_left low, low]

def writeData (buf : Buf) (nbytes : ℕ) : Host Unit := .ask (.writeData (firstBytes buf nbytes)) .ret

/-- `readData(fd, buf + offset, nbytes)`: its result, which no caller looks at, and the array. -/
def readData (buf : Buf) (offset nbytes : ℕ) : Host (Int × Buf) :=
  .ask (.readData nbytes) fun
    | none => .ret (sbIoerror, buf)
    | some bytes => .ret ((bytes.take nbytes).length, store buf offset (bytes.take nbytes))

def usleep (usec : ℕ) : Host Unit := .ask (.usleep usec) .ret

/-! ### Commands -/

/-- What a reply to a command means. -/
def replyResult (reply : Byte) : Int :=
  if reply = hostReplySuccess then sbOk
  else if reply = hostReplyBadchksum then sbBadcc
  else if reply = hostReplyFailure then sbHwfail
  else sbError

/-- A frame and the reply to it, which goes to `buf[0]`. -/
def exchange (buf : Buf) (nbytes : ℕ) : Host Int := do
  writeData buf nbytes
  let (_, buf) ← readData buf 0 1
  return replyResult (buf 0)

/-- "Param valid is from 0 to range-1, inclusive", which the check does not say. -/
def simpleWrite (cmdCode : Byte) (param range : Int) : Host Int :=
  if param < 0 ∨ param > range then return -255
  else exchange (bufOf [cmdCode, toByte param, cmdCode + toByte param]) 3

def startBlackfin : Host Int := simpleWrite hostCmdBfinState 1 2
def stopBlackfin : Host Int := simpleWrite hostCmdBfinState 0 2
def switchToExternalPower : Host Int := simpleWrite hostCmdSwitchpower 1 2
def switchToInternalPower : Host Int := simpleWrite hostCmdSwitchpower 0 2
def setBatteryState (state : Int) : Host Int := simpleWrite hostCmdBattctl state 10
def dropMarker (markerNum : Int) : Host Int := simpleWrite hostCmdMarker markerNum 2
def lcdBacklight (state : Int) : Host Int := simpleWrite hostCmdBacklight state 3
def setBarState (state : Int) : Host Int := simpleWrite hostCmdBars state 16
def setAnimation (anim : Int) : Host Int := simpleWrite hostCmdBaranimation anim 3
def setBarOutputs (bars : Int) : Host Int := simpleWrite hostCmdSetBars bars 256
def setDiagnostics (state : Int) : Host Int := simpleWrite hostCmdRuntimediag state 2

/-- The array with the sum of its first `length` bytes after them. -/
def withSum (bytes : List Byte) : Buf := bufOf (bytes ++ [chksum (bufOf bytes) bytes.length 0#8])

def setThrusterSafety (state : Int) : Host Int :=
  if state < 0 ∨ state > 11 then return -255
  else do
    if state > 5 then usleep (300 * 1000)
    exchange (withSum [hostCmdThrusters, 0xB1, 0xD0, 0x23, 0x7A, 0x69, toByte state]) 8

/-- A speed as two bytes, the high one first. -/
def speedBytes (s : Int) : List Byte := [toByte (s >>> (8 : ℕ)), toByte s]

def setSpeeds (s1 s2 s3 s4 s5 s6 : Int) : Host Int :=
  exchange (withSum (hostCmdSetspeed :: (speedBytes s1 ++ speedBytes s2 ++ speedBytes s3 ++ speedBytes s4 ++
    speedBytes s5 ++ speedBytes s6))) 14

def setOvrParams (a b : Int) : Host Int :=
  if a < 0 ∨ a > 255 ∨ b < 0 ∨ b > 255 then return -255
  else exchange (withSum [hostCmdSetOvrlimit, toByte a, toByte b]) 4

/-- A command of two equal bytes. -/
def repeated (cmd : Byte) : Host Int := exchange (bufOf [cmd, cmd]) 2

def fireTorpedo (torpnum : Byte) : Host Int :=
  if torpnum = 1 then repeated hostCmdFireTorp1
  else if torpnum = 2 then repeated hostCmdFireTorp2
  else return sbError

def setDerpySpeed (speed : Int) : Host Int :=
  exchange (withSum (hostCmdSetDerpy :: (speedBytes speed ++ [0x44, 0x45, 0x52, 0x50]))) 8

/-! ### What a command writes -/

/-- Every read times out; the frames written are kept. -/
def silent (frames : List (List Byte)) : (o : Op) → Ans o × List (List Byte)
  | .writeData bytes => ((), frames ++ [bytes])
  | .readData _ => (none, frames)
  | .usleep _ => ((), frames)

/-- The frames that a command writes. -/
def sent {α : Type} (p : Host α) : List (List Byte) :=
  match exec silent 0 p [] with
  | some (_, frames) => frames
  | none => []

theorem firstBytes_bufOf (bytes : List Byte) : firstBytes (bufOf bytes) bytes.length = bytes := by
  refine List.ext_getElem (by simp [firstBytes]) (fun i low _ => ?_)
  simp [firstBytes, bufOf] at low ⊢
  simp [low]

theorem sent_exchange (bytes : List Byte) {n : ℕ} (length : bytes.length = n) :
    sent (exchange (bufOf bytes) n) = [bytes] := by
  have written := firstBytes_bufOf bytes
  rw [length] at written
  simp [sent, exchange, writeData, readData, silent, written]

theorem sent_ite {α : Type} {c : Prop} [Decidable c] (p q : Host α) :
    sent (if c then p else q) = if c then sent p else sent q := by
  split <;> rfl

@[simp] theorem sent_ret {α : Type} (a : α) : sent (.ret a : Host α) = [] := rfl

theorem sent_simpleWrite (cmdCode : Byte) (param range : Int) : sent (simpleWrite cmdCode param range) =
    if param < 0 ∨ param > range then [] else [[cmdCode, toByte param, cmdCode + toByte param]] := by
  rw [simpleWrite, sent_ite, sent_exchange (n := 3) _ rfl]
  rfl

end Tortuga.SensorApi
