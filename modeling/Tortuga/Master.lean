import Tortuga.Programs
import Tortuga.BusCodes

/-!
The master of the sensor board (`ic1.c`, as built with `SBR7` and `MOTORBOARD`), from the
loop that takes the commands of the host. Lights and the boot code are left out.
-/
namespace Tortuga.Master
open Tortuga.Programs Tortuga.BusCodes
set_option linter.unusedSimpArgs false

/-! ### What the master asks of the board -/

/-- The end of a write on the bus. A slave that does not let go of the bus may have
    taken the byte. -/
inductive WriteAnswer where
  | delivered
  | noAck
  | stuck (taken : Bool)
  deriving DecidableEq, Repr

/-- The slave has the byte. -/
def WriteAnswer.taken : WriteAnswer → Bool
  | .delivered => true
  | .noAck => false
  | .stuck taken => taken

inductive ReadAnswer where
  | byte (b : Byte)
  | noAck
  | stuck
  deriving DecidableEq, Repr

inductive Op where
  /-- `U1STAbits.URXDA`, and `U1RXREG` when it is set. -/
  | rxByte
  /-- `IN_USBDETECT == USB_PRESENT`. -/
  | usbPresent
  /-- `failsafeTripped == 1`. -/
  | readFailsafe
  /-- `failsafeTripped = 0`. -/
  | clearFailsafe
  /-- The registers of Timer1 in `setMotorFailsafe`. -/
  | startTimer
  | busWrite (data req : Byte)
  | busRead (req : Byte)
  | sendByte (i : Byte)
  deriving DecidableEq, Repr

abbrev Ans : Op → Type
  | .rxByte => Option Byte
  | .usbPresent => Bool
  | .readFailsafe => Bool
  | .clearFailsafe => Unit
  | .startTimer => Unit
  | .busWrite _ _ => WriteAnswer
  | .busRead _ => ReadAnswer
  | .sendByte _ => Unit

/-- The loops that wait: `while(1)` of `main`, the one of `waitchar`, and the one of
    `main` for a lost USB. -/
inductive Loop where
  | command
  | waitchar
  | usbLost
  deriving DecidableEq, Repr

/-- `_T1Interrupt`, which sets `failsafeTripped`. -/
inductive Interrupt where
  | t1
  deriving DecidableEq, Repr

abbrev Io := Prog Op Ans Loop
abbrev MasterEvent := Event Op Ans Loop Interrupt

/-- `failsafeTripped == 1` after an event. -/
def tripped (flag : Bool) : MasterEvent → Bool
  | .ext .t1 => true
  | .call .clearFailsafe _ => false
  | _ => flag

/-- A read of the flag finds what it holds. -/
def ReadsFlag (flag : Bool) : MasterEvent → Prop
  | .call .readFailsafe found => found = flag
  | _ => True

instance : ∀ flag e, Decidable (ReadsFlag flag e)
  | flag, .call .readFailsafe found => inferInstanceAs (Decidable (found = flag))
  | _, .call .rxByte _ | _, .call .usbPresent _ | _, .call .clearFailsafe _ | _, .call .startTimer _
  | _, .call (.busWrite _ _) _ | _, .call (.busRead _) _ | _, .call (.sendByte _) _ | _, .iter _ | _, .ext _ =>
    isTrue trivial

/-- The flag over a trace. -/
def flag : Monitor Op Ans Loop Interrupt Bool where
  next := tripped
  allows := ReadsFlag
  demands _ _ := True
  faults _ := True

/-! ### Slaves -/

abbrev irqIc4 : Byte := 0#8
abbrev irqIc3 : Byte := 1#8
abbrev irqIc2 : Byte := 2#8
abbrev irqDistro : Byte := 3#8
abbrev irqBalancer : Byte := 4#8
abbrev irqSonar : Byte := 5#8
abbrev irqMotor : Byte := 6#8

abbrev slaveIdDepth : Byte := irqIc4
abbrev slaveIdThrusters : Byte := irqDistro
abbrev slaveIdMarkers : Byte := irqMotor
abbrev slaveIdTemp : Byte := irqIc3
abbrev slaveIdLcd : Byte := irqIc2
abbrev slaveIdHardkill : Byte := irqBalancer
abbrev slaveIdSonar : Byte := irqSonar
abbrev slaveIdStartsw : Byte := irqIc3
abbrev slaveIdKillsw : Byte := irqDistro
abbrev slaveIdBattstat : Byte := irqBalancer
abbrev slaveIdBars : Byte := irqDistro
abbrev slaveIdImotor : Byte := irqDistro
abbrev slaveIdVlow : Byte := irqDistro
abbrev slaveIdDvl : Byte := irqDistro
abbrev slaveIdMotor : Byte := irqMotor
abbrev slaveIdTorpedo : Byte := irqMotor
abbrev slaveIdGrabber : Byte := irqMotor
abbrev numSlaves : ℕ := 7

/-- Slave and command of `SLAVE_MM1_READ_CMD` to `SLAVE_MM6_READ_CMD`. -/
def mmReads : List (Byte × Byte) :=
  [(irqIc2, busCmdGetreplyU1), (irqIc2, busCmdGetreplyU2), (irqIc3, busCmdGetreplyU1),
    (irqIc3, busCmdGetreplyU2), (irqIc4, busCmdGetreplyU1), (irqIc4, busCmdGetreplyU2)]

def hkSafety : List Byte := [0xDE#8, 0xAD#8, 0xBE#8, 0xEF#8, 0x3E#8]
def tkSafety : List Byte := [0xB1#8, 0xD0#8, 0x23#8, 0x7A#8, 0x69#8]

/-! ### Input, output and the failsafe -/

abbrev busError : Int := -1
abbrev busFailure : Int := -2
abbrev errNousb : Int := -1

/-- 0, `BUS_ERROR` or `BUS_FAILURE`. -/
def WriteAnswer.code : WriteAnswer → Int
  | .delivered => 0
  | .noAck => busError
  | .stuck _ => busFailure

/-- A byte, `BUS_ERROR` or `BUS_FAILURE`. -/
def ReadAnswer.code : ReadAnswer → Int
  | .byte b => b.toNat
  | .noAck => busError
  | .stuck => busFailure

@[simp] theorem WriteAnswer.code_eq_zero (a : WriteAnswer) : a.code = 0 ↔ a = .delivered := by
  cases a <;> simp [code]

def busWriteByte (data req : Byte) : Io Int := .ask (.busWrite data req) fun a => .ret a.code
def busReadByte (req : Byte) : Io Int := .ask (.busRead req) fun a => .ret a.code

def sendByte (i : Byte) : Io Unit := .ask (.sendByte i) .ret
def usbPresent : Io Bool := .ask .usbPresent .ret

def setMotorFailsafe : Io Unit := .ask .clearFailsafe fun _ => .ask .startTimer .ret

/-- Bytes written one after another to a slave, whatever comes of each. -/
def writeAll (req : Byte) : List Byte → Io Unit
  | [] => .ret ()
  | data :: rest => do
    let _ ← busWriteByte data req
    writeAll req rest

def thrustersOff : List Byte :=
  [busCmdThruster1Off, busCmdThruster2Off, busCmdThruster3Off, busCmdThruster4Off, busCmdThruster5Off,
    busCmdThruster6Off]

def checkFailsafe : Io Unit :=
  .ask .readFailsafe fun tripped =>
    if tripped then
      .ask .clearFailsafe fun _ => do
        let _ ← busWriteByte busCmdKillMotors slaveIdMotor
        writeAll slaveIdThrusters thrustersOff
    else .ret ()

/-- `waitchar`: the next byte of the host, or -1 without USB. -/
def waitchar : Io Int := do
  checkFailsafe
  .loop .waitchar () (fun _ => .ask .rxByte fun
    | some x => .ret (.inr (x.toNat : Int))
    | none => .ask .usbPresent fun present =>
      if present then do
        checkFailsafe
        .ret (.inl ())
      else .ret (.inr errNousb)) .ret

/-- `showString` from the character `i` on. -/
def showFrom (line : ℕ) : ℕ → List Char → Io Unit
  | i, c :: rest =>
    if i < c.toNat then do
      let _ ← busWriteByte busCmdLcdWrite slaveIdLcd
      let _ ← busWriteByte (BitVec.ofNat 8 (line * 16 + i)) slaveIdLcd
      let _ ← busWriteByte (BitVec.ofNat 8 c.toNat) slaveIdLcd
      showFrom line (i + 1) rest
    else do
      let _ ← busWriteByte busCmdLcdRefresh slaveIdLcd
  | _, [] => do
    let _ ← busWriteByte busCmdLcdRefresh slaveIdLcd

def showString (str : List Char) (line : ℕ) : Io Unit := showFrom line 0 str

/-! ### Scratch variables -/

/-- The variables that live from one command to the next. -/
structure Mem where
  rxBuf : ℕ → Byte
  t1 : Int
  t2 : Int
  diagMsg : Byte

abbrev rxBufSize : ℕ := 60

abbrev Main := StateT Mem Io

def setT1 (t : Int) : Main Unit := modify fun m => { m with t1 := t }
def setT2 (t : Int) : Main Unit := modify fun m => { m with t2 := t }

/-- `rxBuf[i] = b`. -/
def setRx (i : ℕ) (b : Byte) : Main Unit :=
  if i < rxBufSize then modify fun m => { m with rxBuf := Function.update m.rxBuf i b }
  else fun _ => .fault

def rx (i : ℕ) : Main Byte := do return (← get).rxBuf i

/-- `rxBuf[i] = waitchar(1)`. -/
def receive (i : ℕ) : Main Unit := do
  let x ← waitchar
  setRx i (toByte x)

/-- `for(i=first; i<first+count; i++) rxBuf[i] = waitchar(1)`. -/
def receiveFrom (first : ℕ) : ℕ → Main Unit
  | 0 => pure ()
  | count + 1 => do
    receive first
    receiveFrom (first + 1) count

/-- The loop of `readDataBlock` at `rxPtr`, with `count` bytes to come. -/
def readFrom (req : Byte) (rxLen : Int) : ℕ → ℕ → Main Int
  | rxPtr, 0 => do
    setRx rxPtr 0
    return rxLen
  | rxPtr, count + 1 => do
    let rxData ← busReadByte req
    if rxData < 0 then return rxData
    else
      setRx rxPtr (toByte rxData)
      readFrom req rxLen (rxPtr + 1) count

/-- `readDataBlock`: the length of the block, `BUS_ERROR` or `BUS_FAILURE`. -/
def readDataBlock (req : Byte) : Main Int := do
  setRx 0 0
  let rxLen ← busReadByte req
  if rxLen < 0 then return rxLen else readFrom req rxLen 0 rxLen.toNat

/-- `table[i]`. -/
def entry (table : List Byte) (i : Int) : Main Byte :=
  match i with
  | .ofNat n => match table[n]? with
    | some b => pure b
    | none => fun _ => .fault
  | .negSucc _ => fun _ => .fault

theorem entry_found {table : List Byte} {n : ℕ} {b : Byte} (found : table[n]? = some b) :
    entry table n = pure b := by
  simp only [entry, found]

theorem entry_none {table : List Byte} {n : ℕ} (missing : table[n]? = none) :
    entry table n = fun _ => .fault := by
  simp only [entry, missing]

/-! ### Steps that the commands share -/

/-- `t1 = waitchar(1)`, which has to repeat the command. -/
def confirmT1 (cmd : Byte) (rest : Main Unit) : Main Unit := do
  let t1 ← waitchar
  setT1 t1
  if t1 ≠ cmd.toNat then sendByte hostReplyBadchksum else rest

/-- `waitchar(1)`, which has to repeat the command. -/
def confirm (cmd : Byte) (rest : Main Unit) : Main Unit := do
  let t ← waitchar
  if t ≠ cmd.toNat then sendByte hostReplyBadchksum else rest

/-- A write that ends the command with `HOST_REPLY_FAILURE` when it fails. -/
def writeOrFail (data req : Byte) (rest : Main Unit) : Main Unit := do
  let r ← busWriteByte data req
  if r ≠ 0 then sendByte hostReplyFailure else rest

/-- A block that ends the command with `HOST_REPLY_FAILURE` when its length is not `len`. -/
def readOrFail (req : Byte) (len : Int) (rest : Main Unit) : Main Unit := do
  let r ← readDataBlock req
  if r ≠ len then sendByte hostReplyFailure else rest

/-- The bytes of `rxBuf` from `first`, `count` of them. -/
def sendRx : ℕ → ℕ → Main Unit
  | _, 0 => pure ()
  | first, count + 1 => do
    sendByte (← rx first)
    sendRx (first + 1) count

/-- A reply with the first `count` bytes of `rxBuf`. -/
def sendReply (reply : Byte) (count : ℕ) : Main Unit := do
  sendByte reply
  sendRx 0 count
  sendByte (chksum (← get).rxBuf count reply)

def success : Main Unit := sendByte hostReplySuccess

/-- `rxBuf[0] = waitchar(1); rxBuf[1] = waitchar(1)`: a parameter and its checksum. The
    parameter has to be `valid`. -/
def param (cmd : Byte) (valid : Byte → Bool) (rest : Byte → Main Unit) : Main Unit := do
  receiveFrom 0 2
  let m ← get
  if ¬ valid (m.rxBuf 0) ∨ chksum m.rxBuf 1 cmd ≠ m.rxBuf 1 then sendByte hostReplyBadchksum
  else rest (m.rxBuf 0)

end Tortuga.Master
