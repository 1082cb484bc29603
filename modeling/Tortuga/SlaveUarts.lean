import Tortuga.Uart

/-!
The UARTs of a slave (`uart.c`), of which a build has none, one or both: the transmit ring, and what
the commands of the master do with the UARTs.
-/
namespace Tortuga.SlaveUarts
open Tortuga.BusCodes Tortuga.Uart

/-- `HAS_U1` and `HAS_U2`. -/
structure Build where
  hasU1 : Bool
  hasU2 : Bool
  deriving DecidableEq

/-- `HAS_UART`. -/
def Build.hasUart (build : Build) : Bool := build.hasU1 || build.hasU2

/-- `U1TXBUF_SIZE`. -/
def txBufSize : ℕ := 32

/-- The variables of the transmit ring, `unsigned char` all. -/
structure TxRing where
  txBuffer : ℕ → Byte
  txReadPtr : ℕ
  txWritePtr : ℕ
  txSize : ℕ

/-- `U1WriteByte`. -/
def writeByte (b : Byte) (r : TxRing) : TxRing where
  txBuffer := Function.update r.txBuffer r.txWritePtr b
  txReadPtr := r.txReadPtr
  txWritePtr := (r.txWritePtr + 1) &&& (txBufSize - 1)
  txSize := (r.txSize + 1) % 256

structure Port where
  rx : Ring
  tx : TxRing

structure Ports where
  u1 : Port
  u2 : Port

/-- As `initInterruptUarts` leaves them. -/
def silentPorts : Ports := ⟨⟨Uart.initial, ⟨fun _ => 0#8, 0, 0, 0⟩⟩, ⟨Uart.initial, ⟨fun _ => 0#8, 0, 0, 0⟩⟩⟩

/-- `if(U1CanRead()) U1ReadByte() else 0xFF`. -/
def nextReply (p : Port) : Byte × Port :=
  if canRead p.rx ≠ 0 then ((readByte p.rx).1, { p with rx := (readByte p.rx).2 }) else (0xFF#8, p)

/-- `UARTWriteByte` for some bytes, one after the other, after `U1ClearRXBuffer`. -/
def sendBytes (bytes : List Byte) (p : Port) : Port :=
  ⟨clearRXBuffer p.rx, bytes.foldl (fun tx b => writeByte b tx) p.tx⟩

/-- The frame of a speed: "Set speed", the address of the motor controller, the speed and the sum. -/
def speedFrame (addr msb lsb : Byte) : List Byte := [0x14#8, addr, lsb, msb, 0x14#8 + addr + msb + lsb]

/-- `UARTSendSpeed`: only a UART that is built in does something. -/
def uartSendSpeed (build : Build) (addr msb lsb : Byte) (first : Bool) (ports : Ports) : Ports :=
  if first then
    if build.hasU1 then { ports with u1 := sendBytes (speedFrame addr msb lsb) ports.u1 } else ports
  else if build.hasU2 then { ports with u2 := sendBytes (speedFrame addr msb lsb) ports.u2 } else ports

end Tortuga.SlaveUarts
