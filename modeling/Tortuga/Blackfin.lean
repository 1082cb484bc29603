import Mathlib.Data.List.Basic
import Tortuga.BusCodes
import Tortuga.Machines

/-!
The sonar board (`bfin.c`): the interrupt that takes the bytes of the Blackfin, and the parser of
the bytes that the master writes on the bus.
-/
namespace Tortuga.Blackfin
open Tortuga.BusCodes
open Tortuga.Machines (after Each)

/-- `STATE_…`: what the next byte of the bus is read as. -/
inductive BusState where
  | topLevel
  | readCmd
  | writeCmd
  | writeLcd
  | setspeedU1
  | setspeedU2
  deriving DecidableEq, Repr

/-- The variables of the board. -/
structure Board where
  txBuf : ℕ → Byte
  txPtr : ℕ
  sonarBuf : ℕ → Byte
  sonarRxBuf : ℕ → Byte
  portalMode : Bool
  fCount : Byte
  sonarPtr : ℕ
  busState : BusState
  nParam : ℕ
  p1 : Byte
  /-- The cells from 16 on stand for what lies behind the array. -/
  cfgRegs : ℕ → Byte
  oc3rs : Byte
  /-- `TRIS_BF_RESET == TRIS_OUT`: the Blackfin is stopped. -/
  bfReset : Bool

/-- The board without the jumper of the portal, when `main` has come to its last loop. -/
def initial : Board where
  txBuf _ := 0#8
  txPtr := 0
  sonarBuf _ := 0#8
  sonarRxBuf _ := 0#8
  portalMode := false
  fCount := 0#8
  sonarPtr := 0
  busState := .topLevel
  nParam := 0
  p1 := 0#8
  cfgRegs _ := 0#8
  oc3rs := 0#8
  bfReset := true

/-! ### The bytes of the Blackfin -/

/-- The byte goes to `sonarRxBuf` as long as there is room, and a full `sonarRxBuf` to `sonarBuf`. -/
def storeByte (t : Byte) (s : Board) : Board :=
  let s := if s.sonarPtr < sonarPacketLen then
    { s with sonarRxBuf := Function.update s.sonarRxBuf s.sonarPtr t, sonarPtr := s.sonarPtr + 1 } else s
  if s.sonarPtr = sonarPacketLen then
    { s with sonarBuf := fun i => if i < sonarPacketLen then s.sonarRxBuf i else s.sonarBuf i }
  else s

/-- "We are looking for 6 FFs in a row." -/
def countByte (t : Byte) (s : Board) : Board :=
  if t = 0xFF#8 then
    let s := { s with fCount := s.fCount + 1 }
    if 6 ≤ s.fCount.toNat then { s with sonarPtr := 0 } else s
  else { s with fCount := 0 }

/-- One turn of the loop of `_U2RXInterrupt`, with the byte of `U2RXREG`. -/
def receive (s : Board) (t : Byte) : Board :=
  if s.portalMode then { s with oc3rs := t } else countByte t (storeByte t s)

/-! ### The bytes of the master -/

/-- "Blackfin Board", as `sprintf` stores it with its terminator. -/
def idText : List Byte :=
  [0x42#8, 0x6C#8, 0x61#8, 0x63#8, 0x6B#8, 0x66#8, 0x69#8, 0x6E#8, 0x20#8, 0x42#8, 0x6F#8, 0x61#8, 0x72#8, 0x64#8,
    0x00#8]

/-- A byte at the top level: `case STATE_TOP_LEVEL` of `processData`. Other bytes do nothing. -/
def topLevelCmd (data : Byte) (s : Board) : Board :=
  if data = busCmdPing then { s with txBuf := Function.update s.txBuf 0 0#8 }
  else if data = busCmdId then
    { s with txBuf := fun i => if i = 0 then 14#8 else (idText[i - 1]?).getD (s.txBuf i) }
  else if data = busCmdReadReg then { s with busState := .readCmd, nParam := 0 }
  else if data = busCmdWriteReg then { s with busState := .writeCmd, nParam := 0 }
  else if data = busCmdSetspeedU1 then { s with busState := .setspeedU1, nParam := 0 }
  else if data = busCmdSetspeedU2 then { s with busState := .setspeedU2, nParam := 0 }
  else if data = busCmdBfreset then { s with bfReset := false }
  else if data = busCmdBfinStop then { s with bfReset := true }
  else if data = busCmdBfinStart then { s with bfReset := false }
  else if data = busCmdSonar then
    { s with txBuf := fun i =>
        if i = 0 then BitVec.ofNat 8 sonarPacketLen
        else if i ≤ sonarPacketLen then s.sonarBuf (i - 1)
        else s.txBuf i }
  else s

/-- `case STATE_WRITE_CMD`. -/
def writeParam (data : Byte) (s : Board) : Board :=
  let s := if s.nParam = 0 then { s with p1 := data } else s
  let s := { s with nParam := (s.nParam + 1) % 256 }
  if s.nParam = 2 then
    { s with nParam := 0, busState := .topLevel, cfgRegs := Function.update s.cfgRegs s.p1.toNat data }
  else s

/-- `processData`: a byte from the master. Three of the states have no case. -/
def processData (data : Byte) (s : Board) : Board :=
  let s := { s with txPtr := 0 }
  match s.busState with
  | .topLevel => topLevelCmd data s
  | .readCmd =>
    { s with
      nParam := 0, busState := .topLevel,
      txBuf := Function.update (Function.update s.txBuf 0 1#8) 1 (s.cfgRegs data.toNat) }
  | .writeCmd => writeParam data s
  | .writeLcd | .setspeedU1 | .setspeedU2 => s

/-- The branch of `checkBus` for a byte that the master requests. -/
def sendData (s : Board) : Byte × Board := (s.txBuf s.txPtr, { s with txPtr := (s.txPtr + 1) % 256 })

end Tortuga.Blackfin
