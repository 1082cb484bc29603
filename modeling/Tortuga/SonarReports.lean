import Mathlib.Algebra.Order.Field.Rat
import Tortuga.Blackfin
import Tortuga.Commands
import Tortuga.SensorApi

/-!
A report on its way from the sonar processor to the host: the frame that `reportPing` writes
(`report.c`), the sonar board between, and `getSonarData` on the host (`sensorapi.c`). A
`double` is a rational number here.
-/
namespace Tortuga.SonarReports
open Tortuga.Programs Tortuga.BusCodes Tortuga.Blackfin
open Tortuga.Master (Mem irqSonar)
open Tortuga.SensorApi (Host Buf bufOf sbOk sbError)

/-! ### The sonar processor -/

/-- The arguments of `reportPing`. -/
structure Report where
  status : Byte
  vectorX : ℚ
  vectorY : ℚ
  vectorZ : ℚ
  range : BitVec 16
  timeStamp : BitVec 32
  sampleNo : BitVec 32
  pingerID : Byte

/-- A `double` as an integer: what is behind the point is left away. -/
def truncate (x : ℚ) : ℤ := x.num.tdiv x.den

/-- "Fractionals to four places", as `signed short`. -/
def fractional (x : ℚ) : BitVec 16 := BitVec.ofInt 16 (truncate (x * 10000))

/-- "All values big-endian". -/
def bytes16 (x : BitVec 16) : List Byte := [(x >>> 8).setWidth 8, x.setWidth 8]

def bytes32 (x : BitVec 32) : List Byte :=
  [(x >>> 24).setWidth 8, (x >>> 16).setWidth 8, (x >>> 8).setWidth 8, x.setWidth 8]

/-- `PACKET_LENGTH`, which depends on `BFIN_SPARTAN_USE_LEGACY_REPORTPING`. -/
def packetLength (legacy : Bool) : ℕ := if legacy then 29 else 31

def header : List Byte := List.replicate 6 0xFF#8

/-- `buf` from 6 on, up to the checksum. The zeros are the sentinel bytes. -/
def fields (legacy : Bool) (r : Report) : List Byte :=
  0x00#8 :: (bytes16 (fractional r.vectorX) ++ bytes16 (fractional r.vectorY) ++ [r.status]) ++
    0x00#8 :: (bytes16 (fractional r.vectorZ) ++ bytes16 r.range) ++
    0x00#8 :: bytes32 r.timeStamp ++ 0x00#8 :: bytes32 r.sampleNo ++
    if legacy then [] else [0x00#8, r.pingerID]

/-- `cs`: the sum of `buf` from 6 on. -/
def checksum (bytes : List Byte) : Byte := bytes.foldl (· + ·) 0#8

/-- `buf` after the header. The last byte is the one that the initializer leaves zero. -/
def body (legacy : Bool) (r : Report) : List Byte := fields legacy r ++ [checksum (fields legacy r), 0x00#8]

def packet (legacy : Bool) (r : Report) : List Byte := header ++ body legacy r

/-- "Sanity check the vector". -/
def OutOfRange (r : Report) : Prop :=
  r.vectorX > 3 / 2 ∨ r.vectorX < -3 / 2 ∨ r.vectorY > 3 / 2 ∨ r.vectorY < -3 / 2 ∨ r.vectorZ > 3 / 2 ∨
    r.vectorZ < -3 / 2

instance (r : Report) : Decidable (OutOfRange r) := inferInstanceAs (Decidable (_ ∨ _))

/-- `reportPing`, where `write` takes `written` bytes: the result and what is on the line. -/
def reportPing (legacy : Bool) (fd : ℤ) (r : Report) (written : ℤ) : ℤ × List Byte :=
  if fd < 0 then (-1, [])
  else if OutOfRange r then (-2, [])
  else (if written = packetLength legacy then 0 else -3, (packet legacy r).take written.toNat)

/-! ### The host -/

/-- `struct sonarData`. -/
structure SonarData where
  vectorX : ℚ
  vectorY : ℚ
  vectorZ : ℚ
  status : Byte
  range : BitVec 16
  timeStampSec : BitVec 32
  timeStampUSec : BitVec 32
  pingerID : Byte

/-- Two bytes, the high one first. -/
def join16 (hi lo : Byte) : BitVec 16 := hi.setWidth 16 <<< 8 ||| lo.setWidth 16

def join32 (a b c d : Byte) : BitVec 32 :=
  a.setWidth 32 <<< 24 ||| b.setWidth 32 <<< 16 ||| c.setWidth 32 <<< 8 ||| d.setWidth 32

/-- `((signed short) …) / 10000.0`. -/
def component (hi lo : Byte) : ℚ := (join16 hi lo).toInt / 10000

/-- What `getSonarData` stores. The sentinel bytes and the checksum of the report decide about texts only. -/
def sonarData (raw : Buf) : SonarData where
  vectorX := component (raw 1) (raw 2)
  vectorY := component (raw 3) (raw 4)
  status := raw 5
  vectorZ := component (raw 7) (raw 8)
  range := join16 (raw 9) (raw 10)
  timeStampSec := join32 (raw 12) (raw 13) (raw 14) (raw 15)
  timeStampUSec := join32 (raw 17) (raw 18) (raw 19) (raw 20)
  pingerID := 0

/-- `getSonarData`, where no `sd` stands for `NULL`: its result and `sd` after it. -/
def getSonarData (sd : Option SonarData) : Host (ℤ × Option SonarData) := do
  let buf := bufOf [hostCmdSonar, hostCmdSonar]
  if sd.isNone then return (-1, none)
  SensorApi.writeData buf 2
  let (_, buf) ← SensorApi.readData buf 0 1
  if buf 0 ≠ 0x0E#8 then return (sbError, sd)
  let (_, rawSonar) ← SensorApi.readData (bufOf []) 0 22
  let (_, buf) ← SensorApi.readData buf 0 1
  if (SensorApi.firstBytes rawSonar 22).foldl (· + ·) 0x0E#8 ≠ buf 0 then return (sbError, sd)
  return (sbOk, some (sonarData rawSonar))

/-! ### The master between the host and the board -/

/-- What the master has around it: the bytes of the host, the sonar board and the replies. -/
structure Wire where
  input : List Byte
  board : Board
  replies : List Byte

/-- The sonar board takes every byte that is for it, and gives the bytes that are asked of it. -/
def serve (t : Wire) : (o : Master.Op) → Master.Ans o × Wire
  | .rxByte => match t.input with
    | [] => (none, t)
    | b :: rest => (some b, { t with input := rest })
  | .usbPresent => (true, t)
  | .readFailsafe => (false, t)
  | .clearFailsafe => ((), t)
  | .startTimer => ((), t)
  | .busWrite data req =>
    if req = irqSonar then (.delivered, { t with board := processData data t.board }) else (.noAck, t)
  | .busRead req =>
    if req = irqSonar then (.byte (sendData t.board).1, { t with board := (sendData t.board).2 }) else (.noAck, t)
  | .sendByte i => ((), { t with replies := t.replies ++ [i] })

/-- What the driver has around it: the scratch variables of the master, the sonar board, and the
    replies that wait. -/
structure Link where
  mem : Mem
  board : Board
  replies : List Byte

/-- The master takes a command that the driver writes, and all its replies come. -/
def answer (l : Link) : (o : SensorApi.Op) → SensorApi.Ans o × Link
  | .writeData bytes => match exec serve 1 (Commands.command l.mem) ⟨bytes, l.board, []⟩ with
    | some ((_, m), t) => ((), ⟨m, t.board, l.replies ++ t.replies⟩)
    | none => ((), l)
  | .readData nbytes => (some (l.replies.take nbytes), { l with replies := l.replies.drop nbytes })
  | .usleep _ => ((), l)

end Tortuga.SonarReports
