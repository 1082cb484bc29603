import Mathlib.Data.List.Basic
import Mathlib.Logic.Function.Basic
import Tortuga.Bitmaps
import Tortuga.BusCodes
import Tortuga.Machines

/-!
The distribution board (`distro.c`): the outputs of the seven motors, the overcurrent
register, the parser of the bytes that the master writes on the bus (`processData`), the
kill switch and the main loop with its sweep over the motor currents. The bus interrupts
the main loop between any two of its steps.
-/
namespace Tortuga.Distro
open Tortuga.BusCodes
open Tortuga.Bitmaps (bit)
open Tortuga.Machines (after Each)
set_option linter.unusedSimpArgs false

/-- `unsigned int`: 16 bits on this processor, as `int`. -/
abbrev Word := BitVec 16

/-! ### Variables and outputs -/

/-- The motors with an output of their own. -/
inductive Motor where
  | motr1
  | motr2
  | motr3
  | motr4
  | motr5
  | motr6
  | derpy
  deriving DecidableEq, Repr

def motors : List Motor := [.motr1, .motr2, .motr3, .motr4, .motr5, .motr6, .derpy]

/-- The bit of a motor in `ovrReg`. The seventh motor has the current sensor 7, not 6. -/
def Motor.index : Motor → ℕ
  | .motr1 => 0
  | .motr2 => 1
  | .motr3 => 2
  | .motr4 => 3
  | .motr5 => 4
  | .motr6 => 5
  | .derpy => 7

/-- `0x01`, …, `0x20` and `0x80`. -/
def Motor.mask : Motor → Byte
  | .motr1 => 0x01#8
  | .motr2 => 0x02#8
  | .motr3 => 0x04#8
  | .motr4 => 0x08#8
  | .motr5 => 0x10#8
  | .motr6 => 0x20#8
  | .derpy => 0x80#8

/-- `BUS_CMD_THRUSTER…_OFF`, `BUS_CMD_DERPY_OFF`. -/
def Motor.offCmd : Motor → Byte
  | .motr1 => busCmdThruster1Off
  | .motr2 => busCmdThruster2Off
  | .motr3 => busCmdThruster3Off
  | .motr4 => busCmdThruster4Off
  | .motr5 => busCmdThruster5Off
  | .motr6 => busCmdThruster6Off
  | .derpy => busCmdDerpyOff

/-- `BUS_CMD_THRUSTER…_ON`, `BUS_CMD_DERPY_ON`. -/
def Motor.onCmd : Motor → Byte
  | .motr1 => busCmdThruster1On
  | .motr2 => busCmdThruster2On
  | .motr3 => busCmdThruster3On
  | .motr4 => busCmdThruster4On
  | .motr5 => busCmdThruster5On
  | .motr6 => busCmdThruster6On
  | .derpy => busCmdDerpyOn

/-- `STATE_…`: what the next byte of the bus is read as. -/
inductive BusState where
  | topLevel
  | readCmd
  | writeCmd
  | setspeedU1
  | setspeedU2
  | motrspeeds
  | setBarmode
  | setBars
  deriving DecidableEq, Repr

/-- The variables and outputs that the bus and the main loop share. -/
structure Shared where
  busState : BusState
  nParam : ℕ
  p1 : Byte
  txBuf : ℕ → Byte
  txPtr : ℕ
  /-- The sixteen registers. The index that the master sends is not checked: the cells
      from 16 on stand for what lies behind the array. -/
  cfgRegs : ℕ → Byte
  mSpeeds : ℕ → Byte
  myTemperature : Byte
  iMotor : ℕ → Word
  v5VBus : Word
  v12VBus : Word
  i5VBus : Word
  i12VBus : Word
  iAux : Word
  /-- The overcurrent register. -/
  ovrReg : Byte
  /-- `LAT_MOTR1`, …, `LAT_MOTR6` and `LAT_DERPY` are `MOTR_ON`. -/
  motr : Motor → Bool
  ledOvr : Bool
  dvl : Bool
  bar : ℕ → Bool
  barMode : Byte
  barBlinkState : ℕ
  barDelaySteps : ℕ
  oldBarState : Byte
  /-- `IN_KILLSW == KILLSW_ON`. -/
  killSw : Bool

/-! ### The parser of the bus -/

/-- `ovrReg & mask` is not zero. -/
def Shared.over (s : Shared) (m : Motor) : Prop := s.ovrReg &&& m.mask ≠ 0#8

instance (s : Shared) (m : Motor) : Decidable (s.over m) := inferInstanceAs (Decidable (_ ≠ _))

/-- The tests of `checkOvrReg` for some of the motors, in their order. -/
def checkMotors : List Motor → Shared → Shared
  | [], s => s
  | m :: rest, s => checkMotors rest (if s.over m then { s with motr := Function.update s.motr m false } else s)

/-- `if(ovrReg) LAT_LED_OVR = LED_ON; else …`. -/
def checkLed (s : Shared) : Shared := { s with ledOvr := decide (s.ovrReg ≠ 0#8) }

def checkOvrReg (s : Shared) : Shared := checkMotors motors (checkLed s)

/-- `LAT_MOTR = ~MOTR_ON; ovrReg &= ~mask; checkOvrReg();`. -/
def motorOff (m : Motor) (s : Shared) : Shared :=
  checkOvrReg { s with motr := Function.update s.motr m false, ovrReg := s.ovrReg &&& ~~~m.mask }

/-- `if(!(ovrReg & mask)) LAT_MOTR = MOTR_ON;`. -/
def motorOn (m : Motor) (s : Shared) : Shared :=
  if s.over m then s else { s with motr := Function.update s.motr m true }

/-- The bytes of a reply, from `txBuf[0]` on. -/
def reply (bytes : List Byte) (s : Shared) : Shared :=
  { s with txBuf := fun i => (bytes[i]?).getD (s.txBuf i) }

/-- The high byte and the low byte. -/
def bytesOf (t : Word) : List Byte := [(t >>> 8).setWidth 8, t.setWidth 8]

/-- A byte with the bits of the flags that are set. -/
def gather : List (Bool × Byte) → Byte
  | [] => 0#8
  | (on, mask) :: rest => (if on then mask else 0#8) ||| gather rest

def readBars (s : Shared) : Byte := gather ((List.range 8).map fun i => (s.bar i, bit 8 i))

def setBars (b : Byte) (s : Shared) : Shared :=
  { s with bar := fun i => if i < 8 then decide (b &&& bit 8 i ≠ 0#8) else s.bar i }

def setBarMode (data : Byte) (s : Shared) : Shared :=
  let s := if s.barMode = 0#8 then { s with oldBarState := readBars s } else s
  let s := if data = 0#8 then setBars s.oldBarState s else s
  { s with barMode := data, barBlinkState := 0 }

/-- "PWR MRK THR", as `sprintf` stores it with its terminator. -/
def idText : List Byte :=
  [0x50#8, 0x57#8, 0x52#8, 0x20#8, 0x4D#8, 0x52#8, 0x4B#8, 0x20#8, 0x54#8, 0x48#8, 0x52#8, 0x00#8]

/-- The commands of the light bars: the bar and what it is set to. -/
def barCmds : List (Byte × ℕ × Bool) :=
  [(busCmdBar1Off, 0, false), (busCmdBar2Off, 1, false), (busCmdBar3Off, 2, false), (busCmdBar4Off, 3, false),
    (busCmdBar5Off, 4, false), (busCmdBar6Off, 5, false), (busCmdBar7Off, 6, false), (busCmdBar8Off, 7, false),
    (busCmdBar1On, 0, true), (busCmdBar2On, 1, true), (busCmdBar3On, 2, true), (busCmdBar4On, 3, true),
    (busCmdBar5On, 4, true), (busCmdBar6On, 5, true), (busCmdBar7On, 6, true), (busCmdBar8On, 7, true)]

/-- The commands of the top level that switch no motor. Other bytes do nothing, and so do
    the markers' commands: `dropMarker` returns at once. -/
def otherCmd (data : Byte) (s : Shared) : Shared :=
  if data = busCmdPing then reply [0#8] s
  else if data = busCmdId then reply (0x0B#8 :: idText) s
  else if data = busCmdReadReg then { s with busState := .readCmd, nParam := 0 }
  else if data = busCmdWriteReg then { s with busState := .writeCmd, nParam := 0 }
  else if data = busCmdSetBars then { s with busState := .setBars, nParam := 0 }
  else if data = busCmdMotrspeeds then { s with busState := .motrspeeds, nParam := 0 }
  else if data = busCmdSetspeedU1 then { s with busState := .setspeedU1, nParam := 0 }
  else if data = busCmdSetspeedU2 then { s with busState := .setspeedU2, nParam := 0 }
  else if data = busCmdSetBarmode then { s with busState := .setBarmode, nParam := 0 }
  else if data = busCmdDvlOn then { s with dvl := true }
  else if data = busCmdDvlOff then { s with dvl := false }
  else if data = busCmdThrusterState then
    reply [1#8, gather ((motors.take 6).map fun m => (s.motr m, m.mask))] s
  else if data = busCmdBarState then reply [1#8, readBars s] s
  else if data = busCmdBoardstatus then reply [1#8, if s.killSw then 0x01#8 else 0x00#8] s
  else if data = busCmdTemp then reply [1#8, s.myTemperature] s
  else if data = busCmdReadOvr then reply [1#8, s.ovrReg] s
  else if data = busCmdReadImotor then reply (16#8 :: (List.range 8).flatMap fun i => bytesOf (s.iMotor i)) s
  else if data = busCmdReadAstatus then
    reply (10#8 :: [s.v5VBus, s.i5VBus, s.v12VBus, s.i12VBus, s.iAux].flatMap bytesOf) s
  else
    match barCmds.find? (fun c => decide (c.1 = data)) with
    | some (_, i, on) => { s with bar := Function.update s.bar i on }
    | none => s

/-- A byte at the top level: `case STATE_TOP_LEVEL`. -/
def topLevelCmd (data : Byte) (s : Shared) : Shared :=
  match motors.find? (fun m => decide (m.offCmd = data)) with
  | some m => motorOff m s
  | none =>
    match motors.find? (fun m => decide (m.onCmd = data)) with
    | some m => motorOn m s
    | none => otherCmd data s

/-- A byte elsewhere: a parameter. The states of the UARTs take any byte and stay, as the
    board is built without them. -/
def paramByte (data : Byte) (s : Shared) : Shared :=
  match s.busState with
  | .topLevel | .setspeedU1 | .setspeedU2 => s
  | .readCmd => reply [1#8, s.cfgRegs data.toNat] { s with nParam := 0, busState := .topLevel }
  | .writeCmd =>
    let p1 := if s.nParam = 0 then data else s.p1
    if s.nParam + 1 = 2 then
      { s with p1 := p1, nParam := 0, busState := .topLevel, cfgRegs := Function.update s.cfgRegs p1.toNat data }
    else { s with p1 := p1, nParam := s.nParam + 1 }
  | .motrspeeds =>
    let mSpeeds := Function.update s.mSpeeds s.nParam data
    if s.nParam + 1 = 6 then { s with mSpeeds := mSpeeds, nParam := 0, busState := .topLevel }
    else { s with mSpeeds := mSpeeds, nParam := s.nParam + 1 }
  | .setBarmode => { setBarMode data s with nParam := 0, busState := .topLevel }
  | .setBars => { setBars data s with nParam := 0, busState := .topLevel }

/-- `processData`: a byte from the master. -/
def processData (data : Byte) (s : Shared) : Shared :=
  let s := { s with txPtr := 0 }
  if s.busState = .topLevel then topLevelCmd data s else paramByte data s

/-! ### The main loop -/

/-- What the main loop does next. -/
inductive Point where
  /-- Before the loop: the registers are still to be set. -/
  | startUp
  /-- The test of the kill switch. -/
  | loop
  /-- `checkKillSwitch` has found the switch off and still turns these motors off. -/
  | killing (left : List Motor)
  /-- `ovrReg &= 0x40`, to be read and then, with what was read, to be written. -/
  | killRead
  | killWrite (read : Byte)
  /-- The bars, the temperature, the currents and the voltages. -/
  | measure
  /-- The current of the motor `i`. -/
  | sweep (i : ℕ)
  /-- `ovrReg |= (1<<i)`, to be read and to be written. -/
  | raiseRead (i : ℕ)
  | raiseWrite (i : ℕ) (read : Byte)
  /-- The call of `checkOvrReg`. -/
  | check (i : ℕ)
  /-- `checkOvrReg` with the motors that it still tests. -/
  | checking (i : ℕ) (left : List Motor)
  deriving DecidableEq

/-- The board and the variables of `main`. -/
structure Board where
  shared : Shared
  point : Point
  ovrTmp : Byte
  writeIndex : ℕ
  i2cErrCount : ℕ

/-- What the sensors give in one round of the loop: `readTemp` and the averages. -/
structure Readings where
  rx : Byte
  iMotor : ℕ → Word
  v5VBus : Word
  v12VBus : Word
  i5VBus : Word
  i12VBus : Word
  iAux : Word

def redBlueAnim : List Byte := [0xC0#8, 0x03#8, 0x30#8, 0x03#8]
def redGreenAnim : List Byte := [0x30#8, 0xC0#8, 0x0C#8, 0xC0#8]

def updateBars (s : Shared) : Shared :=
  if s.barMode = 0#8 then s
  else if s.barDelaySteps ≠ 0 then { s with barDelaySteps := s.barDelaySteps - 1 }
  else
    let blink := if s.barBlinkState + 1 = 4 then 0 else s.barBlinkState + 1
    let s := { s with barDelaySteps := 10, barBlinkState := blink }
    if s.barMode = 1#8 then setBars ((redBlueAnim[blink]?).getD 0#8) s
    else if s.barMode = 2#8 then setBars ((redGreenAnim[blink]?).getD 0#8) s
    else s

/-- The temperature is given up after ten errors in a row. -/
def takeTemperature (rx : Byte) (b : Board) : Board :=
  if rx = 255#8 then
    if b.i2cErrCount < 10 then { b with i2cErrCount := b.i2cErrCount + 1 }
    else { b with shared := { b.shared with myTemperature := 255#8 } }
  else { b with i2cErrCount := 0, shared := { b.shared with myTemperature := rx } }

/-- The currents and voltages of one round, and `writeIndex`. -/
def takeReadings (r : Readings) (b : Board) : Board :=
  { b with
    writeIndex := if b.writeIndex + 1 ≥ 16 then 0 else b.writeIndex + 1
    shared :=
      { b.shared with
        iMotor := r.iMotor, v5VBus := r.v5VBus, v12VBus := r.v12VBus, i5VBus := r.i5VBus, i12VBus := r.i12VBus
        iAux := r.iAux } }

/-- `(cfgRegs[0] * mSpeeds[i]) / 6 + (cfgRegs[1] * 40)`, in `int`. For the seventh motor
    the source reads `mSpeeds[7]`, behind the array. -/
def maxCurrent (s : Shared) (i : ℕ) : Word :=
  ((s.cfgRegs 0).setWidth 16 * (s.mSpeeds i).setWidth 16).sdiv 6#16 + (s.cfgRegs 1).setWidth 16 * 40#16

/-- The sweep goes on after the motor `i`. -/
def Point.following (i : ℕ) : Point :=
  if i + 1 = 6 then .sweep 7 else if i + 1 < 8 then .sweep (i + 1) else .loop

/-- The current of the motor `i` against its bound: the second sweep in a row over the
    bound raises its bit. -/
def sweepMotor (i : ℕ) (b : Board) : Board :=
  if b.shared.iMotor i > maxCurrent b.shared i then
    if b.ovrTmp &&& bit 8 i ≠ 0#8 then { b with point := .raiseRead i }
    else { b with ovrTmp := b.ovrTmp ||| bit 8 i, point := .following i }
  else { b with ovrTmp := b.ovrTmp &&& ~~~bit 8 i, point := .following i }

/-- The step of the main loop at a point of it. -/
def mainAt (r : Readings) (b : Board) : Point → Board
  | .startUp =>
    { b with
      point := .loop
      shared :=
        { b.shared with
          mSpeeds := fun i => if i < 6 then 0#8 else b.shared.mSpeeds i
          cfgRegs := fun i => if i = 1 then 0xFF#8 else if i < 16 then 0#8 else b.shared.cfgRegs i } }
  | .loop => { b with point := if b.shared.killSw then .measure else .killing motors }
  | .killing (m :: left) =>
    { b with point := .killing left, shared := { b.shared with motr := Function.update b.shared.motr m false } }
  | .killing [] => { b with point := .killRead }
  | .killRead => { b with point := .killWrite b.shared.ovrReg }
  | .killWrite read => { b with point := .measure, shared := { b.shared with ovrReg := read &&& 0x40#8 } }
  | .measure =>
    let b := takeReadings r (takeTemperature r.rx { b with shared := updateBars b.shared })
    { b with point := if b.writeIndex = 0 ∧ b.shared.cfgRegs 1 ≠ 0xFF#8 then .sweep 0 else .loop }
  | .sweep i => sweepMotor i b
  | .raiseRead i => { b with point := .raiseWrite i b.shared.ovrReg }
  | .raiseWrite i read => { b with point := .check i, shared := { b.shared with ovrReg := read ||| bit 8 i } }
  | .check i => { b with point := .checking i motors, shared := checkLed b.shared }
  | .checking i (m :: left) => { b with point := .checking i left, shared := checkMotors [m] b.shared }
  | .checking i [] => { b with point := .following i }

/-- A step of the main loop. -/
def mainStep (r : Readings) (b : Board) : Board := mainAt r b b.point

/-- What happens to the board. -/
inductive Event where
  /-- The master writes a byte. -/
  | write (data : Byte)
  /-- The master reads a byte. -/
  | read
  /-- The kill switch. -/
  | killSwitch (on : Bool)
  /-- The main loop takes its next step. -/
  | main (r : Readings)

/-- `checkBus` and the main loop. -/
def next (b : Board) : Event → Board
  | .write data => { b with shared := processData data b.shared }
  | .read => { b with shared := { b.shared with txPtr := b.shared.txPtr + 1 } }
  | .killSwitch on => { b with shared := { b.shared with killSw := on } }
  | .main r => mainStep r b

/-- The board when `main` turns on the interrupt of the bus: all motors are off. `memory`
    is what the arrays hold, and what lies behind them. -/
def initial (memory : ℕ → Byte) (killSw : Bool) : Board where
  point := .startUp
  ovrTmp := 0#8
  writeIndex := 0
  i2cErrCount := 0
  shared :=
    { busState := .topLevel, nParam := 0, p1 := 0#8, txBuf := fun _ => 0#8, txPtr := 0, cfgRegs := memory, mSpeeds := memory
      myTemperature := 255#8, iMotor := fun _ => 0#16, v5VBus := 0#16, v12VBus := 0#16, i5VBus := 0#16, i12VBus := 0#16
      iAux := 0#16, ovrReg := 0#8, motr := fun _ => false, ledOvr := false, dvl := false, bar := fun _ => false
      barMode := 0#8, barBlinkState := 0, barDelaySteps := 0, oldBarState := 0#8, killSw := killSw }

end Tortuga.Distro
