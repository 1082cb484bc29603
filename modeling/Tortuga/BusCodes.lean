import Mathlib.Data.Nat.Notation
import Mathlib.Logic.Function.Basic

/-!
Bytes, the command codes shared by the boards and the host (`buscodes.h`), and the
checksum they all use (`common.c`).
-/
namespace Tortuga.BusCodes

/-- `unsigned char`. -/
abbrev Byte := BitVec 8

/-- A value stored in a `byte`. -/
def toByte (x : Int) : Byte := BitVec.ofInt 8 x

@[simp] theorem toByte_toNat (b : Byte) : toByte (b.toNat : Int) = b := by
  simp [toByte]

/-- A value that fits is stored as it is. -/
theorem toNat_toByte {x : Int} (low : 0 ≤ x) (high : x ≤ 255) : ((toByte x).toNat : Int) = x := by
  rw [toByte, BitVec.toNat_ofInt]
  omega

/-! ### Commands the master sends to slaves -/

abbrev busCmdPing : Byte := 0x00#8
abbrev busCmdId : Byte := 0x01#8
abbrev busCmdReadReg : Byte := 0x02#8
abbrev busCmdWriteReg : Byte := 0x03#8
abbrev busCmdMarker1 : Byte := 0x04#8
abbrev busCmdDepth : Byte := 0x05#8
abbrev busCmdLcdWrite : Byte := 0x06#8
abbrev busCmdLcdRefresh : Byte := 0x07#8
abbrev busCmdLcdLightOn : Byte := 0x08#8
abbrev busCmdLcdLightOff : Byte := 0x09#8
abbrev busCmdMarker2 : Byte := 0x0C#8
abbrev busCmdTemp : Byte := 0x0F#8
abbrev busCmdBoardstatus : Byte := 0x10#8
abbrev busCmdHardkill : Byte := 0x11#8
abbrev busCmdLcdLightFlash : Byte := 0x12#8
abbrev busCmdThruster1Off : Byte := 0x13#8
abbrev busCmdThruster2Off : Byte := 0x14#8
abbrev busCmdThruster3Off : Byte := 0x15#8
abbrev busCmdThruster4Off : Byte := 0x16#8
abbrev busCmdThruster5Off : Byte := 0x23#8
abbrev busCmdThruster6Off : Byte := 0x24#8
abbrev busCmdThruster1On : Byte := 0x17#8
abbrev busCmdThruster2On : Byte := 0x18#8
abbrev busCmdThruster3On : Byte := 0x19#8
abbrev busCmdThruster4On : Byte := 0x1A#8
abbrev busCmdThruster5On : Byte := 0x25#8
abbrev busCmdThruster6On : Byte := 0x26#8
abbrev busCmdThrusterState : Byte := 0x1C#8
abbrev busCmdSonar : Byte := 0x1B#8
abbrev busCmdSetspeedU1 : Byte := 0x1F#8
abbrev busCmdSetspeedU2 : Byte := 0x20#8
abbrev busCmdGetreplyU1 : Byte := 0x21#8
abbrev busCmdGetreplyU2 : Byte := 0x22#8
abbrev busCmdStartsw : Byte := 0x27#8
abbrev busCmdBatt1Off : Byte := 0x28#8
abbrev busCmdBatt2Off : Byte := 0x29#8
abbrev busCmdBatt3Off : Byte := 0x2A#8
abbrev busCmdBatt4Off : Byte := 0x2B#8
abbrev busCmdBatt5Off : Byte := 0x2C#8
abbrev busCmdBatt6Off : Byte := 0x51#8
abbrev busCmdBatt1On : Byte := 0x2D#8
abbrev busCmdBatt2On : Byte := 0x2E#8
abbrev busCmdBatt3On : Byte := 0x2F#8
abbrev busCmdBatt4On : Byte := 0x30#8
abbrev busCmdBatt5On : Byte := 0x31#8
abbrev busCmdBatt6On : Byte := 0x52#8
abbrev busCmdBar1Off : Byte := 0x32#8
abbrev busCmdBar2Off : Byte := 0x33#8
abbrev busCmdBar3Off : Byte := 0x34#8
abbrev busCmdBar4Off : Byte := 0x35#8
abbrev busCmdBar5Off : Byte := 0x36#8
abbrev busCmdBar6Off : Byte := 0x37#8
abbrev busCmdBar7Off : Byte := 0x38#8
abbrev busCmdBar8Off : Byte := 0x39#8
abbrev busCmdBar1On : Byte := 0x3A#8
abbrev busCmdBar2On : Byte := 0x3B#8
abbrev busCmdBar3On : Byte := 0x3C#8
abbrev busCmdBar4On : Byte := 0x3D#8
abbrev busCmdBar5On : Byte := 0x3E#8
abbrev busCmdBar6On : Byte := 0x3F#8
abbrev busCmdBar7On : Byte := 0x40#8
abbrev busCmdBar8On : Byte := 0x41#8
abbrev busCmdBarState : Byte := 0x42#8
abbrev busCmdReadOvr : Byte := 0x43#8
abbrev busCmdReadImotor : Byte := 0x44#8
abbrev busCmdReadAstatus : Byte := 0x45#8
abbrev busCmdBattstate : Byte := 0x46#8
abbrev busCmdBattvoltage : Byte := 0x47#8
abbrev busCmdBattcurrent : Byte := 0x48#8
abbrev busCmdExtpower : Byte := 0x49#8
abbrev busCmdIntpower : Byte := 0x4A#8
abbrev busCmdMotrspeeds : Byte := 0x4B#8
abbrev busCmdSetBarmode : Byte := 0x4C#8
abbrev busCmdBfreset : Byte := 0x4D#8
abbrev busCmdSetBars : Byte := 0x4E#8
abbrev busCmdBfinStop : Byte := 0x4F#8
abbrev busCmdBfinStart : Byte := 0x50#8
abbrev busCmdSetMotSpeeds : Byte := 0x53#8
abbrev busCmdKillMotors : Byte := 0x54#8
abbrev busCmdSetMotN : Byte := 0x55#8
abbrev busCmdMagPwrOn : Byte := 0x56#8
abbrev busCmdMagPwrOff : Byte := 0x57#8
abbrev busCmdDvlOn : Byte := 0x5B#8
abbrev busCmdDvlOff : Byte := 0x5C#8
abbrev busCmdFireTorp1 : Byte := 0x5D#8
abbrev busCmdFireTorp2 : Byte := 0x5E#8
abbrev busCmdVoidTorp1 : Byte := 0x5F#8
abbrev busCmdVoidTorp2 : Byte := 0x60#8
abbrev busCmdArmTorp1 : Byte := 0x61#8
abbrev busCmdArmTorp2 : Byte := 0x62#8
abbrev busCmdExtGrabber : Byte := 0x63#8
abbrev busCmdRetGrabber : Byte := 0x64#8
abbrev busCmdVoidGrabber : Byte := 0x65#8
abbrev busCmdVoidPneu : Byte := 0x66#8
abbrev busCmdOffPneu : Byte := 0x67#8
abbrev busCmdDerpyOn : Byte := 0x68#8
abbrev busCmdDerpyOff : Byte := 0x69#8
abbrev busCmdSetDerpy : Byte := 0x6A#8
abbrev busCmdStopDerpy : Byte := 0x6B#8
abbrev busCmdCamRelayOn : Byte := 0x6C#8
abbrev busCmdCamRelayOff : Byte := 0x6D#8

/-! ### Commands of the host and the replies of the master -/

abbrev hostCmdSync : Byte := 0xFF#8
abbrev hostCmdPing : Byte := 0x00#8
abbrev hostReplySuccess : Byte := 0xBC#8
abbrev hostReplyFailure : Byte := 0xDF#8
abbrev hostReplyBadchksum : Byte := 0xCC#8
abbrev hostCmdSyscheck : Byte := 0x01#8
abbrev hostCmdDepth : Byte := 0x02#8
abbrev hostReplyDepth : Byte := 0x03#8
abbrev hostCmdBoardstatus : Byte := 0x04#8
abbrev hostReplyBoardstatus : Byte := 0x05#8
abbrev hostCmdHardkill : Byte := 0x06#8
abbrev hostCmdMarker : Byte := 0x07#8
abbrev hostCmdBacklight : Byte := 0x08#8
abbrev hostCmdThrusters : Byte := 0x09#8
abbrev hostCmdTemperature : Byte := 0x0A#8
abbrev hostReplyTemperature : Byte := 0x0B#8
abbrev hostCmdPrinttext : Byte := 0x0C#8
abbrev hostCmdSonar : Byte := 0x0D#8
abbrev hostReplySonar : Byte := 0x0E#8
abbrev hostCmdRuntimediag : Byte := 0x0F#8
abbrev hostCmdThrusterstate : Byte := 0x10#8
abbrev hostReplyThrusterstate : Byte := 0x11#8
abbrev hostCmdSetspeed : Byte := 0x12#8
abbrev hostCmdMotorRead : Byte := 0x13#8
abbrev hostCmdMotorReply : Byte := 0x14#8
abbrev hostCmdBars : Byte := 0x15#8
abbrev hostCmdBarstate : Byte := 0x16#8
abbrev hostReplyBarstate : Byte := 0x17#8
abbrev hostCmdImotor : Byte := 0x18#8
abbrev hostReplyImotor : Byte := 0x19#8
abbrev hostCmdVlow : Byte := 0x1A#8
abbrev hostReplyVlow : Byte := 0x1B#8
abbrev hostCmdReadOvr : Byte := 0x1C#8
abbrev hostReplyOvr : Byte := 0x1D#8
abbrev hostCmdBattstate : Byte := 0x1E#8
abbrev hostReplyBattstate : Byte := 0x1F#8
abbrev hostCmdBattctl : Byte := 0x20#8
abbrev hostCmdBattvoltage : Byte := 0x21#8
abbrev hostReplyBattvoltage : Byte := 0x22#8
abbrev hostCmdBattcurrent : Byte := 0x23#8
abbrev hostReplyBattcurrent : Byte := 0x24#8
abbrev hostCmdSwitchpower : Byte := 0x25#8
abbrev hostCmdReadOvrlimit : Byte := 0x26#8
abbrev hostReplyOvrlimit : Byte := 0x27#8
abbrev hostCmdSetOvrlimit : Byte := 0x28#8
abbrev hostCmdBfreset : Byte := 0x29#8
abbrev hostCmdBaranimation : Byte := 0x2A#8
abbrev hostCmdSetBars : Byte := 0x2B#8
abbrev hostCmdBfinState : Byte := 0x2C#8
abbrev hostCmdMagPwrOn : Byte := 0x2F#8
abbrev hostCmdMagPwrOff : Byte := 0x30#8
abbrev hostCmdDvlOn : Byte := 0x32#8
abbrev hostCmdDvlOff : Byte := 0x33#8
abbrev hostCmdFireTorp1 : Byte := 0x34#8
abbrev hostCmdFireTorp2 : Byte := 0x35#8
abbrev hostCmdVoidTorp1 : Byte := 0x36#8
abbrev hostCmdVoidTorp2 : Byte := 0x37#8
abbrev hostCmdArmTorp1 : Byte := 0x38#8
abbrev hostCmdArmTorp2 : Byte := 0x39#8
abbrev hostCmdExtGrabber : Byte := 0x3A#8
abbrev hostCmdRetGrabber : Byte := 0x3B#8
abbrev hostCmdVoidGrabber : Byte := 0x3C#8
abbrev hostCmdVoidPneu : Byte := 0x3D#8
abbrev hostCmdOffPneu : Byte := 0x3E#8
abbrev hostCmdDerpyOn : Byte := 0x3F#8
abbrev hostCmdDerpyOff : Byte := 0x40#8
abbrev hostCmdSetDerpy : Byte := 0x41#8
abbrev hostCmdStopDerpy : Byte := 0x42#8
abbrev hostCmdCamRelayOn : Byte := 0x43#8
abbrev hostCmdCamRelayOff : Byte := 0x44#8
abbrev sonarPacketLen : ℕ := 22

/-! ### Checksum -/

/-- The sum of the first `length` bytes of `buffer` and of `extra`, in a byte. -/
def chksum (buffer : ℕ → Byte) (length : ℕ) (extra : Byte) : Byte :=
  (List.range length).foldl (fun sum i => sum + buffer i) 0#8 + extra

theorem chksum_eq (buffer : ℕ → Byte) (length : ℕ) (extra : Byte) :
    chksum buffer length extra = ((List.range length).map buffer).foldl (· + ·) 0#8 + extra := by
  rw [chksum, List.foldl_map]

theorem foldl_add (bytes : List Byte) (a : Byte) : bytes.foldl (· + ·) a = a + bytes.foldl (· + ·) 0#8 := by
  induction bytes generalizing a with
  | nil => simp
  | cons b rest ih =>
    rw [List.foldl_cons, List.foldl_cons, ih, ih (0#8 + b), BitVec.zero_add, BitVec.add_assoc]

theorem chksum_one (buffer : ℕ → Byte) (extra : Byte) : chksum buffer 1 extra = buffer 0 + extra := by
  simp [chksum]

end Tortuga.BusCodes
