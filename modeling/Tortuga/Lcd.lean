import Tortuga.SlaveUarts

/-!
The LCD board (`ic2.c`): the parser of the bytes that the master writes on the bus.
-/
namespace Tortuga.Lcd
open Tortuga.BusCodes Tortuga.SlaveUarts

/-- `STATE_…`: what the next byte of the bus is read as. -/
inductive BusState where
  | topLevel
  | readCmd
  | writeCmd
  | writeLcd
  | setspeedU1
  | setspeedU2
  deriving DecidableEq, Repr

/-- The variables of the board. -/
structure Board where
  busState : BusState
  nParam : ℕ
  p1 : Byte
  txBuf : ℕ → Byte
  txPtr : ℕ
  /-- The cells from 16 on stand for what lies behind the array. -/
  cfgRegs : ℕ → Byte
  lcdBuf : ℕ → Byte
  lcdUpdate : ℕ
  /-- `LAT_BL`. -/
  backlight : Bool
  /-- `T1CONbits.TON`, which makes the light flash. -/
  flashing : Bool
  ports : Ports

/-- The board when `main` turns on the interrupt of the bus. -/
def initial (memory : ℕ → Byte) : Board where
  busState := .topLevel
  nParam := 0
  p1 := 0#8
  txBuf _ := 0#8
  txPtr := 0
  cfgRegs := memory
  lcdBuf _ := 0#8
  lcdUpdate := 0
  backlight := false
  flashing := false
  ports := silentPorts

/-- "LCD Controller", as `sprintf` stores it with its terminator. -/
def idText : List Byte :=
  [0x4C#8, 0x43#8, 0x44#8, 0x20#8, 0x43#8, 0x6F#8, 0x6E#8, 0x74#8, 0x72#8, 0x6F#8, 0x6C#8, 0x6C#8, 0x65#8, 0x72#8,
    0x00#8]

/-- The bytes of a reply, from `txBuf[0]` on. -/
def reply (bytes : List Byte) (s : Board) : Board := { s with txBuf := fun i => (bytes[i]?).getD (s.txBuf i) }

/-- A byte at the top level: `case STATE_TOP_LEVEL` of `processData`. Other bytes do nothing. -/
def topLevelCmd (build : Build) (data : Byte) (s : Board) : Board :=
  if data = busCmdPing then reply [0#8] s
  else if data = busCmdId then reply (14#8 :: idText) s
  else if data = busCmdReadReg then { s with busState := .readCmd, nParam := 0 }
  else if data = busCmdWriteReg then { s with busState := .writeCmd, nParam := 0 }
  else if data = busCmdSetspeedU1 then { s with busState := .setspeedU1, nParam := 0 }
  else if data = busCmdSetspeedU2 then { s with busState := .setspeedU2, nParam := 0 }
  else if data = busCmdGetreplyU1 ∧ build.hasU1 = true then
    reply [1#8, (nextReply s.ports.u1).1] { s with ports := { s.ports with u1 := (nextReply s.ports.u1).2 } }
  else if data = busCmdGetreplyU2 ∧ build.hasU2 = true then
    reply [1#8, (nextReply s.ports.u2).1] { s with ports := { s.ports with u2 := (nextReply s.ports.u2).2 } }
  else if data = busCmdLcdWrite then { s with busState := .writeLcd, nParam := 0 }
  else if data = busCmdLcdRefresh then { s with lcdUpdate := (s.lcdUpdate + 1) % 256 }
  else if data = busCmdLcdLightOff then { s with backlight := false, flashing := false }
  else if data = busCmdLcdLightOn then { s with backlight := true, flashing := false }
  else if data = busCmdLcdLightFlash then { s with flashing := true }
  else s

/-- The parameter is kept, when it is the first, and counted. -/
def countParam (data : Byte) (s : Board) : Board :=
  { s with p1 := if s.nParam = 0 then data else s.p1, nParam := (s.nParam + 1) % 256 }

/-- `processData`: a byte from the master. -/
def processData (build : Build) (s : Board) (data : Byte) : Board :=
  let s := { s with txPtr := 0 }
  match s.busState with
  | .topLevel => topLevelCmd build data s
  | .setspeedU1 =>
    let s := countParam data s
    if s.nParam = 2 then
      { s with nParam := 0, ports := uartSendSpeed build 0x01#8 s.p1 data true s.ports, busState := .topLevel }
    else s
  | .setspeedU2 =>
    let s := countParam data s
    if s.nParam = 2 then
      { s with nParam := 0, ports := uartSendSpeed build 0x02#8 s.p1 data false s.ports, busState := .topLevel }
    else s
  | .readCmd => reply [1#8, s.cfgRegs data.toNat] { s with nParam := 0, busState := .topLevel }
  | .writeCmd =>
    let s := countParam data s
    if s.nParam = 2 then
      { s with nParam := 0, busState := .topLevel, cfgRegs := Function.update s.cfgRegs s.p1.toNat data }
    else s
  | .writeLcd =>
    let s := countParam data s
    if s.nParam = 2 then
      { s with
        nParam := 0, busState := .topLevel,
        lcdBuf := if s.p1.toNat < 32 then Function.update s.lcdBuf s.p1.toNat data else s.lcdBuf }
    else s

end Tortuga.Lcd
