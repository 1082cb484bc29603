import Tortuga.Bitmaps
import Tortuga.SlaveUarts

/-!
The power board (`balancer.c`, as built with `BBR3`): the parser of the bytes that the master writes
on the bus.
-/
namespace Tortuga.Balancer
open Tortuga.BusCodes Tortuga.SlaveUarts
open Tortuga.Bitmaps (bit)

/-- `unsigned int`: 16 bits on this processor. -/
abbrev Word := BitVec 16

/-- `STATE_…`: what the next byte of the bus is read as. -/
inductive BusState where
  | topLevel
  | readCmd
  | writeCmd
  | setspeedU1
  | setspeedU2
  deriving DecidableEq, Repr

/-- The variables, inputs and outputs of the board. -/
structure Board where
  busState : BusState
  nParam : ℕ
  p1 : Byte
  txBuf : ℕ → Byte
  txPtr : ℕ
  /-- The cells from 16 on stand for what lies behind the array. -/
  cfgRegs : ℕ → Byte
  myTemperature : Byte
  vBatt : ℕ → Word
  iBatt : ℕ → Word
  /-- `IN_BATT1 == BATT_ON`, …, `IN_BATT6 == BATT_ON`, from 0 on. -/
  inBatt : ℕ → Bool
  /-- `IN_WTRSEN == 0`: there is water. -/
  water : Bool
  /-- `LAT_BATT1_CTL == BATT_ENABLE`, …, `LAT_BATT6_CTL == BATT_ENABLE`, from 0 on. -/
  battCtl : ℕ → Bool
  /-- `LAT_PWRKILL == PWRKILL_ON`. -/
  pwrKill : Bool
  ports : Ports

/-- The board when `main` turns on the interrupt of the bus. `memory` is what the arrays hold, and what
    lies behind them. -/
def initial (memory : ℕ → Byte) : Board where
  busState := .topLevel
  nParam := 0
  p1 := 0#8
  txBuf _ := 0#8
  txPtr := 0
  cfgRegs := memory
  myTemperature := 255#8
  vBatt _ := 0#16
  iBatt _ := 0#16
  inBatt _ := false
  water := false
  battCtl _ := true
  pwrKill := false
  ports := silentPorts

/-- `BATT_COUNT`. -/
def battCount : ℕ := 6

/-- "BAL WTR PWR", as `sprintf` stores it with its terminator. -/
def idText : List Byte :=
  [0x42#8, 0x41#8, 0x4C#8, 0x20#8, 0x57#8, 0x54#8, 0x52#8, 0x20#8, 0x50#8, 0x57#8, 0x52#8, 0x00#8]

/-- The bytes of a reply, from `txBuf[0]` on. -/
def reply (bytes : List Byte) (s : Board) : Board := { s with txBuf := fun i => (bytes[i]?).getD (s.txBuf i) }

/-- "Big-endian." -/
def bytesOf (t : Word) : List Byte := [(t >>> 8).setWidth 8, t.setWidth 8]

/-- The byte with the bits of the batteries that are on. -/
def battBits (on : ℕ → Bool) : Byte :=
  (List.range battCount).foldl (fun b i => if on i then b ||| bit 8 i else b) 0#8

/-- The commands of the batteries: the battery and what it is set to. -/
def battCmds : List (Byte × ℕ × Bool) :=
  [(busCmdBatt1Off, 0, false), (busCmdBatt2Off, 1, false), (busCmdBatt3Off, 2, false), (busCmdBatt4Off, 3, false),
    (busCmdBatt5Off, 4, false), (busCmdBatt6Off, 5, false), (busCmdBatt1On, 0, true), (busCmdBatt2On, 1, true),
    (busCmdBatt3On, 2, true), (busCmdBatt4On, 3, true), (busCmdBatt5On, 4, true), (busCmdBatt6On, 5, true)]

/-- A byte at the top level: `case STATE_TOP_LEVEL` of `processData`. Other bytes do nothing. -/
def topLevelCmd (build : Build) (data : Byte) (s : Board) : Board :=
  if data = busCmdPing then reply [0#8] s
  else if data = busCmdId then reply (11#8 :: idText) s
  else if data = busCmdReadReg then { s with busState := .readCmd, nParam := 0 }
  else if data = busCmdWriteReg then { s with busState := .writeCmd, nParam := 0 }
  else if data = busCmdSetspeedU1 then { s with busState := .setspeedU1, nParam := 0 }
  else if data = busCmdSetspeedU2 then { s with busState := .setspeedU2, nParam := 0 }
  else if data = busCmdGetreplyU1 ∧ build.hasU1 = true then
    reply [1#8, (nextReply s.ports.u1).1] { s with ports := { s.ports with u1 := (nextReply s.ports.u1).2 } }
  else if data = busCmdGetreplyU2 ∧ build.hasU2 = true then
    reply [1#8, (nextReply s.ports.u2).1] { s with ports := { s.ports with u2 := (nextReply s.ports.u2).2 } }
  else if data = busCmdBoardstatus then
    reply [1#8, battBits s.inBatt ||| if s.water then 0x80#8 else 0x00#8] s
  else if data = busCmdTemp then reply [1#8, s.myTemperature] s
  else if data = busCmdExtpower then { s with battCtl := fun i => decide (i = 5) }
  else if data = busCmdIntpower then { s with battCtl := fun i => decide (i ≠ 5) }
  else if data = busCmdHardkill then { s with pwrKill := true }
  else if data = busCmdBattstate then reply [1#8, battBits s.battCtl] s
  else if data = busCmdBattvoltage then reply (14#8 :: (List.range (battCount + 1)).flatMap fun i => bytesOf (s.vBatt i)) s
  else if data = busCmdBattcurrent then reply (12#8 :: (List.range battCount).flatMap fun i => bytesOf (s.iBatt i)) s
  else
    match battCmds.find? (fun c => decide (c.1 = data)) with
    | some (_, i, on) => { s with battCtl := Function.update s.battCtl i on }
    | none => s

/-- The parameter is kept, when it is the first, and counted. -/
def countParam (data : Byte) (s : Board) : Board :=
  { s with p1 := if s.nParam = 0 then data else s.p1, nParam := (s.nParam + 1) % 256 }

/-- `case STATE_SETSPEED_U1` and `case STATE_SETSPEED_U2`, which are there with `HAS_UART` only. -/
def speedParam (build : Build) (first : Bool) (data : Byte) (s : Board) : Board :=
  if build.hasUart then
    let s := countParam data s
    if s.nParam = 2 then
      { s with nParam := 0, ports := uartSendSpeed build 0x01#8 s.p1 data first s.ports, busState := .topLevel }
    else s
  else s

/-- `processData`: a byte from the master. -/
def processData (build : Build) (s : Board) (data : Byte) : Board :=
  let s := { s with txPtr := 0 }
  match s.busState with
  | .topLevel => topLevelCmd build data s
  | .setspeedU1 => speedParam build true data s
  | .setspeedU2 => speedParam build false data s
  | .readCmd => reply [1#8, s.cfgRegs data.toNat] { s with nParam := 0, busState := .topLevel }
  | .writeCmd =>
    let s := countParam data s
    if s.nParam = 2 then
      { s with nParam := 0, busState := .topLevel, cfgRegs := Function.update s.cfgRegs s.p1.toNat data }
    else s

end Tortuga.Balancer
