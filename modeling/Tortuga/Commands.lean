import Tortuga.Master

/-!
The commands of the host: every case of the `switch` in `main` (`ic1.c`) and the loop
around it.
-/
namespace Tortuga.Commands
open Tortuga.Programs Tortuga.BusCodes Tortuga.Master
set_option linter.unusedSimpArgs false

/-! ### Commands of one shape -/

/-- A repeated command that is one byte for a slave, with the repetition kept in `t1`. -/
def switchT1 (cmd busCmd slave : Byte) : Main Unit := confirmT1 cmd (writeOrFail busCmd slave success)

/-- A repeated command that is one byte for a slave. -/
def switch (cmd busCmd slave : Byte) : Main Unit := confirm cmd (writeOrFail busCmd slave success)

/-- A repeated command that is answered by a block of a slave. -/
def report (cmd busCmd slave : Byte) (len : ℕ) (reply : Byte) : Main Unit :=
  confirmT1 cmd (writeOrFail busCmd slave (readOrFail slave len (sendReply reply len)))

def simpleCmd (cmdCode replyCode slaveId busCmd : Byte) : Main Unit := do
  let t1 ← waitchar
  if toByte t1 ≠ cmdCode then sendByte hostReplyBadchksum
  else writeOrFail busCmd slaveId (readOrFail slaveId 1 do
    sendByte replyCode
    sendByte (← rx 0)
    sendByte (replyCode + (← rx 0)))

/-! ### Liveness, state and power -/

def caseSync : Main Unit := success

def casePing : Main Unit := do
  let t1 ← waitchar
  setT1 t1
  if t1 = hostCmdPing.toNat then sendByte hostReplySuccess else sendByte hostReplyBadchksum

/-- 1 for a slave that fails its ping, 0 for one that answers with an empty block. -/
def pingSlave (i : Byte) : Main ℕ := do
  let r ← busWriteByte busCmdPing i
  if r = 0 then
    let len ← readDataBlock i
    pure (if toByte len = 0 then 0 else 1)
  else pure 1

/-- The slaves from `i` on that fail their ping, `count` of them asked. -/
def pingSlaves : ℕ → ℕ → Main ℕ
  | _, 0 => pure 0
  | i, count + 1 => do
    let err ← pingSlave (BitVec.ofNat 8 i)
    let more ← pingSlaves (i + 1) count
    pure (err + more)

def caseSyscheck : Main Unit :=
  confirmT1 hostCmdSyscheck do
    let err ← pingSlaves 0 numSlaves
    if err = 0 then sendByte hostReplySuccess else sendByte hostReplyFailure

def caseDepth : Main Unit := report hostCmdDepth busCmdDepth slaveIdDepth 2 hostReplyDepth
def caseThrusterstate : Main Unit :=
  simpleCmd hostCmdThrusterstate hostReplyThrusterstate slaveIdThrusters busCmdThrusterState
def caseReadOvr : Main Unit := simpleCmd hostCmdReadOvr hostReplyOvr slaveIdThrusters busCmdReadOvr
def caseCamRelayOn : Main Unit := switchT1 hostCmdCamRelayOn busCmdCamRelayOn slaveIdDepth
def caseCamRelayOff : Main Unit := switchT1 hostCmdCamRelayOff busCmdCamRelayOff slaveIdDepth
def caseBattstate : Main Unit := simpleCmd hostCmdBattstate hostReplyBattstate slaveIdBattstat busCmdBattstate
def caseBarstate : Main Unit := simpleCmd hostCmdBarstate hostReplyBarstate slaveIdBars busCmdBarState

/-- A register of the power board is in `rxBuf[0]` for `rest`. -/
def readReg (reg : Byte) (rest : Main Unit) : Main Unit :=
  writeOrFail busCmdReadReg slaveIdThrusters (writeOrFail reg slaveIdThrusters (readOrFail slaveIdThrusters 1 rest))

def caseReadOvrlimit : Main Unit :=
  confirmT1 hostCmdReadOvrlimit (readReg 0 do
    setT1 (← rx 0).toNat
    readReg 1 do
      setRx 1 (toByte (← get).t1)
      sendByte hostReplyOvrlimit
      sendByte (← rx 1)
      sendByte (← rx 0)
      sendByte (chksum (← get).rxBuf 2 hostReplyOvrlimit))

def writeReg (reg data : Byte) (rest : Main Unit) : Main Unit :=
  writeOrFail busCmdWriteReg slaveIdThrusters (writeOrFail reg slaveIdThrusters (writeOrFail data slaveIdThrusters rest))

def caseSetOvrlimit : Main Unit := do
  receiveFrom 0 3
  let m ← get
  if chksum m.rxBuf 2 hostCmdSetOvrlimit ≠ m.rxBuf 2 then sendByte hostReplyBadchksum
  else writeReg 0 (m.rxBuf 0) (writeReg 1 (m.rxBuf 1) success)

/-- `rxBuf[0] != 0 && rxBuf[0] != 1` fails. -/
def isBit (b : Byte) : Bool := b = 0 ∨ b = 1

@[simp] theorem isBit_iff (b : Byte) : isBit b = true ↔ b = 0 ∨ b = 1 := by
  rw [isBit, decide_eq_true_eq]

def caseSwitchpower : Main Unit :=
  param hostCmdSwitchpower isBit fun b => do
    let t1 ← busWriteByte (if b = 0 then busCmdIntpower else busCmdExtpower) slaveIdBattstat
    setT1 t1
    if t1 ≠ 0 then sendByte hostReplyFailure else sendByte hostReplySuccess

def caseBoardstatus : Main Unit :=
  confirmT1 hostCmdBoardstatus do
    setT1 0
    writeOrFail busCmdBoardstatus slaveIdBattstat (readOrFail slaveIdBattstat 1 do
      setT1 (← rx 0).toNat
      writeOrFail busCmdBoardstatus slaveIdKillsw (readOrFail slaveIdKillsw 1 do
        setT2 ((← rx 0) &&& 1#8).toNat
        writeOrFail busCmdStartsw slaveIdStartsw (readOrFail slaveIdStartsw 1 do
          setT2 ((← get).t2.toNat ||| ((← rx 0) &&& 1#8).toNat <<< 1 : ℕ)
          setRx 0 (toByte (← get).t2)
          setRx 1 (toByte (← get).t1)
          sendReply hostReplyBoardstatus 2)))

/-- The bytes of `rxBuf` are the safety sequence. -/
def isSafety (safety : List Byte) (rxBuf : ℕ → Byte) : Bool :=
  (List.range safety.length).all fun i => some (rxBuf i) = safety[i]?

def caseHardkill : Main Unit := do
  receiveFrom 0 5
  if ¬ isSafety hkSafety (← get).rxBuf then sendByte hostReplyBadchksum
  else writeOrFail busCmdHardkill slaveIdHardkill success

/-! ### Commands with a parameter -/

def caseMarker : Main Unit :=
  param hostCmdMarker isBit fun b =>
    writeOrFail (if b = 0 then busCmdMarker1 else busCmdMarker2) slaveIdMarkers success

def blCommands : List Byte := [busCmdLcdLightOff, busCmdLcdLightOn, busCmdLcdLightFlash]

def caseBacklight : Main Unit :=
  param hostCmdBacklight (fun b => b = 0 ∨ b = 1 ∨ b = 2) fun b => do
    writeOrFail (← entry blCommands b.toNat) slaveIdLcd success

def bfCommands : List Byte := [busCmdBfinStop, busCmdBfinStart]

def caseBfinState : Main Unit :=
  param hostCmdBfinState isBit fun b => do
    writeOrFail (← entry bfCommands b.toNat) slaveIdSonar success

def caseBaranimation : Main Unit :=
  param hostCmdBaranimation (fun b => b = 0 ∨ b = 1 ∨ b = 2) fun b =>
    writeOrFail busCmdSetBarmode slaveIdBars (writeOrFail b slaveIdBars success)

def caseSetBars : Main Unit :=
  param hostCmdSetBars (fun _ => true) fun b =>
    writeOrFail busCmdSetBars slaveIdBars (writeOrFail b slaveIdBars success)

def tkCommands : List Byte :=
  [busCmdThruster1Off, busCmdThruster2Off, busCmdThruster3Off, busCmdThruster4Off, busCmdThruster5Off,
    busCmdThruster6Off, busCmdThruster1On, busCmdThruster2On, busCmdThruster3On, busCmdThruster4On,
    busCmdThruster5On, busCmdThruster6On]

def caseThrusters : Main Unit := do
  receiveFrom 0 5
  let t1 ← waitchar
  setT1 t1
  let t2 ← waitchar
  setT2 t2
  let m ← get
  let cs := chksum m.rxBuf 5 (toByte (t1 + hostCmdThrusters.toNat))
  if ¬ isSafety tkSafety m.rxBuf ∨ t1 > 11 ∨ t2 ≠ cs.toNat then sendByte hostReplyBadchksum
  else writeOrFail (← entry tkCommands t1) slaveIdThrusters success

def barCommands : List Byte :=
  [busCmdBar1Off, busCmdBar2Off, busCmdBar3Off, busCmdBar4Off, busCmdBar5Off, busCmdBar6Off, busCmdBar7Off,
    busCmdBar8Off, busCmdBar1On, busCmdBar2On, busCmdBar3On, busCmdBar4On, busCmdBar5On, busCmdBar6On,
    busCmdBar7On, busCmdBar8On]

def caseBars : Main Unit :=
  param hostCmdBars (fun b => b.toNat ≤ 15) fun b => do
    writeOrFail (← entry barCommands b.toNat) slaveIdBars success

def battCommands : List Byte :=
  [busCmdBatt1Off, busCmdBatt2Off, busCmdBatt3Off, busCmdBatt4Off, busCmdBatt5Off, busCmdBatt6Off,
    busCmdBatt1On, busCmdBatt2On, busCmdBatt3On, busCmdBatt4On, busCmdBatt5On, busCmdBatt6On]

/-- The check is on `t1`, which this command does not set. -/
def caseBattctl : Main Unit := do
  receiveFrom 0 2
  let m ← get
  if m.t1 > 9 ∨ chksum m.rxBuf 1 hostCmdBattctl ≠ m.rxBuf 1 then sendByte hostReplyBadchksum
  else writeOrFail (← entry battCommands (m.rxBuf 0).toNat) slaveIdBattstat success

def caseTemperature : Main Unit :=
  confirmT1 hostCmdTemperature
    (writeOrFail busCmdTemp irqDistro (readOrFail irqDistro 1 do
      setT1 (← rx 0).toNat
      writeOrFail busCmdTemp irqBalancer (readOrFail irqBalancer 1 do
        setT2 (← rx 0).toNat
        writeOrFail busCmdTemp slaveIdTemp (readOrFail slaveIdTemp 5 do
          setRx 5 (toByte (← get).t1)
          setRx 6 (toByte (← get).t2)
          sendReply hostReplyTemperature 7))))

/-- The characters from `i` on, `count` of them, up to the first that fails. -/
def printChars : ℕ → ℕ → Main Int
  | _, 0 => pure 0
  | i, count + 1 => do
    let e1 ← busWriteByte busCmdLcdWrite slaveIdLcd
    let e2 ← busWriteByte (BitVec.ofNat 8 ((← rx 16).toNat * 16 + i)) slaveIdLcd
    let e3 ← busWriteByte (← rx i) slaveIdLcd
    if e1 + e2 + e3 = 0 then printChars (i + 1) count else pure (e1 + e2 + e3)

def casePrinttext : Main Unit := do
  receive 16
  receiveFrom 0 16
  receive 17
  let m ← get
  if m.rxBuf 16 > 1 ∨ chksum m.rxBuf 17 hostCmdPrinttext ≠ m.rxBuf 17 then sendByte hostReplyBadchksum
  else
    let err ← printChars 0 16
    let e ← busWriteByte busCmdLcdRefresh slaveIdLcd
    if err + e ≠ 0 then sendByte hostReplyFailure else sendByte hostReplySuccess

def caseSonar : Main Unit := report hostCmdSonar busCmdSonar slaveIdSonar sonarPacketLen hostReplySonar
def caseBfreset : Main Unit := switchT1 hostCmdBfreset busCmdBfreset slaveIdSonar

def diagOff : List Char :=
  ['R', 'u', 'n', 't', 'i', 'm', 'e', ' ', 'D', 'i', 'a', 'g', ' ', 'O', 'f', 'f']
def diagOn : List Char :=
  ['R', 'u', 'n', 't', 'i', 'm', 'e', ' ', 'D', 'i', 'a', 'g', ' ', 'O', 'n', ' ']

def caseRuntimediag : Main Unit :=
  param hostCmdRuntimediag isBit fun b => do
    modify fun m => { m with diagMsg := b }
    showString (if b = 0 then diagOff else diagOn) 1
    success

/-! ### Speeds -/

/-- The signed 16-bit speed of two bytes. -/
def speed16 (high low : Byte) : BitVec 16 := (high.setWidth 16 <<< 8) ||| low.setWidth 16

/-- `convertSpeed`: a 16-bit speed scaled to the byte of a motor controller. -/
def convertSpeed (high low : Byte) : Byte :=
  let multTemp := (speed16 high low).toInt * 102
  let multTemp := if multTemp < 0 then multTemp + 0x3FF else multTemp
  let multTemp := multTemp >>> (10 : ℕ)
  if multTemp < 0 then toByte (0x7F + multTemp) else toByte (0x80 + multTemp)

/-- `speed >> 1` of the absolute value, in the byte that the power board gets. -/
def distroSpeed (high low : Byte) : Byte :=
  let speed := speed16 high low
  let speed := if speed.toInt < 0 then -speed else speed
  (speed.sshiftRight 1).setWidth 8

/-- `if(… != 0) t1++`. -/
def countErr (r : Int) : Main Unit := modify fun m => if r ≠ 0 then { m with t1 := m.t1 + 1 } else m

/-- The motor bytes of the speeds from `rxBuf[i]` on. -/
def sendSpeeds : ℕ → ℕ → Main Unit
  | _, 0 => pure ()
  | i, count + 1 => do
    let r ← busWriteByte (convertSpeed (← rx i) (← rx (i + 1))) slaveIdMotor
    countErr r
    sendSpeeds (i + 2) count

theorem sendSpeeds_succ (i count : ℕ) (m : Mem) : sendSpeeds i (count + 1) m =
    (do
      let r ← busWriteByte (convertSpeed (m.rxBuf i) (m.rxBuf (i + 1))) slaveIdMotor
      countErr r
      sendSpeeds (i + 2) count : Main Unit) m := rfl

/-- The speeds from number `i` on, for the power board. -/
def sendDistro : ℕ → ℕ → Main Unit
  | _, 0 => pure ()
  | i, count + 1 => do
    let r ← busWriteByte (distroSpeed (← rx (2 * i)) (← rx (2 * i + 1))) slaveIdThrusters
    countErr r
    sendDistro (i + 1) count

/-- "Inform distro board of new speeds". -/
def informDistro : Main Unit := do
  let r ← busWriteByte busCmdMotrspeeds slaveIdThrusters
  if r = 0 then sendDistro 0 6 else countErr r

/-- A speed frame with a good checksum. The first write is not checked. -/
def setSpeeds : Main Unit := do
  setT1 0
  let _ ← busWriteByte busCmdSetMotSpeeds slaveIdMotor
  sendSpeeds 0 6
  informDistro
  if (← get).t1 = 0 then sendByte hostReplySuccess else sendByte hostReplyFailure

def caseSetspeed : Main Unit := do
  setMotorFailsafe
  receiveFrom 0 13
  let m ← get
  if chksum m.rxBuf 12 hostCmdSetspeed ≠ m.rxBuf 12 then sendByte hostReplyBadchksum else setSpeeds

/-- `resp`, with the errors counted in `t1`. -/
def readMotors : List (Byte × Byte) → Main (List Byte)
  | [] => pure []
  | (slave, cmd) :: rest => do
    let r ← busWriteByte cmd slave
    countErr r
    let len ← readDataBlock slave
    countErr (len - 1)
    let b ← rx 0
    let resp ← readMotors rest
    pure (b :: resp)

def sendAll : List Byte → Io Unit
  | [] => .ret ()
  | b :: rest => do
    sendByte b
    sendAll rest

def caseMotorRead : Main Unit :=
  confirmT1 hostCmdMotorRead do
    setT1 0
    let resp ← readMotors mmReads
    if (← get).t1 ≠ 0 then sendByte hostReplyFailure
    else
      sendByte hostCmdMotorReply
      sendAll resp
      sendByte (chksum (fun i => resp.getD i 0) 6 hostCmdMotorReply)

/-- The repetition of the command is kept in `rxBuf`. -/
def caseImotor : Main Unit := do
  receive 0
  if (← rx 0) ≠ hostCmdImotor then sendByte hostReplyBadchksum
  else writeOrFail busCmdReadImotor slaveIdImotor (readOrFail slaveIdImotor 16 (sendReply hostReplyImotor 16))

def caseVlow : Main Unit := report hostCmdVlow busCmdReadAstatus slaveIdVlow 10 hostReplyVlow
def caseBattvoltage : Main Unit :=
  report hostCmdBattvoltage busCmdBattvoltage slaveIdBattstat 14 hostReplyBattvoltage
def caseBattcurrent : Main Unit :=
  report hostCmdBattcurrent busCmdBattcurrent slaveIdBattstat 12 hostReplyBattcurrent

/-! ### Switches and actuators -/

def caseDvlOn : Main Unit := switchT1 hostCmdDvlOn busCmdDvlOn slaveIdDvl
def caseDvlOff : Main Unit := switchT1 hostCmdDvlOff busCmdDvlOff slaveIdDvl
def caseMagPwrOn : Main Unit := switch hostCmdMagPwrOn busCmdMagPwrOn slaveIdMarkers
def caseMagPwrOff : Main Unit := switch hostCmdMagPwrOff busCmdMagPwrOff slaveIdMarkers
def caseFireTorp1 : Main Unit := switch hostCmdFireTorp1 busCmdFireTorp1 slaveIdTorpedo
def caseFireTorp2 : Main Unit := switch hostCmdFireTorp2 busCmdFireTorp2 slaveIdTorpedo
def caseArmTorp1 : Main Unit := switch hostCmdArmTorp1 busCmdArmTorp1 slaveIdTorpedo
def caseArmTorp2 : Main Unit := switch hostCmdArmTorp2 busCmdArmTorp2 slaveIdTorpedo
def caseVoidTorp1 : Main Unit := switch hostCmdVoidTorp1 busCmdVoidTorp1 slaveIdTorpedo
def caseVoidTorp2 : Main Unit := switch hostCmdVoidTorp2 busCmdVoidTorp2 slaveIdTorpedo
def caseExtGrabber : Main Unit := switch hostCmdExtGrabber busCmdExtGrabber slaveIdGrabber
def caseRetGrabber : Main Unit := switch hostCmdRetGrabber busCmdRetGrabber slaveIdGrabber
def caseVoidGrabber : Main Unit := switch hostCmdVoidGrabber busCmdVoidGrabber slaveIdGrabber
def caseVoidPneu : Main Unit := switch hostCmdVoidPneu busCmdVoidPneu slaveIdGrabber
def caseOffPneu : Main Unit := switch hostCmdOffPneu busCmdOffPneu slaveIdGrabber
def caseDerpyOn : Main Unit := switch hostCmdDerpyOn busCmdDerpyOn slaveIdThrusters

/-- Two commands for two boards. -/
def caseDerpyOff : Main Unit :=
  confirm hostCmdDerpyOff
    (writeOrFail busCmdDerpyOff slaveIdThrusters (writeOrFail busCmdStopDerpy slaveIdMotor success))

def caseStopDerpy : Main Unit := switch hostCmdStopDerpy busCmdStopDerpy slaveIdMotor

/-- "DERP". -/
def derpText : List Byte := [0x44#8, 0x45#8, 0x52#8, 0x50#8]

def caseSetDerpy : Main Unit := do
  receiveFrom 0 7
  let m ← get
  if chksum m.rxBuf 6 hostCmdSetDerpy ≠ m.rxBuf 6 then sendByte hostReplyBadchksum
  else if ¬ isSafety derpText (fun i => m.rxBuf (i + 2)) then sendByte hostReplyFailure
  else
    writeOrFail busCmdSetDerpy slaveIdMotor
      (writeOrFail (convertSpeed (m.rxBuf 0) (m.rxBuf 1)) slaveIdMotor success)

/-! ### The loop -/

/-- The cases of the `switch`. -/
def cases : List (Byte × Main Unit) :=
  [(hostCmdSync, caseSync), (hostCmdPing, casePing), (hostCmdSyscheck, caseSyscheck), (hostCmdDepth, caseDepth),
    (hostCmdThrusterstate, caseThrusterstate), (hostCmdReadOvr, caseReadOvr),
    (hostCmdCamRelayOn, caseCamRelayOn), (hostCmdCamRelayOff, caseCamRelayOff),
    (hostCmdBattstate, caseBattstate), (hostCmdBarstate, caseBarstate),
    (hostCmdReadOvrlimit, caseReadOvrlimit), (hostCmdSetOvrlimit, caseSetOvrlimit),
    (hostCmdSwitchpower, caseSwitchpower), (hostCmdBoardstatus, caseBoardstatus),
    (hostCmdHardkill, caseHardkill), (hostCmdMarker, caseMarker), (hostCmdBacklight, caseBacklight),
    (hostCmdBfinState, caseBfinState), (hostCmdBaranimation, caseBaranimation),
    (hostCmdSetBars, caseSetBars), (hostCmdThrusters, caseThrusters), (hostCmdBars, caseBars),
    (hostCmdBattctl, caseBattctl), (hostCmdTemperature, caseTemperature),
    (hostCmdPrinttext, casePrinttext), (hostCmdSonar, caseSonar), (hostCmdBfreset, caseBfreset),
    (hostCmdRuntimediag, caseRuntimediag), (hostCmdSetspeed, caseSetspeed),
    (hostCmdMotorRead, caseMotorRead), (hostCmdImotor, caseImotor), (hostCmdVlow, caseVlow),
    (hostCmdBattvoltage, caseBattvoltage), (hostCmdBattcurrent, caseBattcurrent),
    (hostCmdDvlOn, caseDvlOn), (hostCmdDvlOff, caseDvlOff), (hostCmdMagPwrOn, caseMagPwrOn),
    (hostCmdMagPwrOff, caseMagPwrOff), (hostCmdFireTorp1, caseFireTorp1), (hostCmdFireTorp2, caseFireTorp2),
    (hostCmdArmTorp1, caseArmTorp1), (hostCmdArmTorp2, caseArmTorp2), (hostCmdVoidTorp1, caseVoidTorp1),
    (hostCmdVoidTorp2, caseVoidTorp2), (hostCmdExtGrabber, caseExtGrabber),
    (hostCmdRetGrabber, caseRetGrabber), (hostCmdVoidGrabber, caseVoidGrabber),
    (hostCmdVoidPneu, caseVoidPneu), (hostCmdOffPneu, caseOffPneu), (hostCmdDerpyOn, caseDerpyOn),
    (hostCmdDerpyOff, caseDerpyOff), (hostCmdStopDerpy, caseStopDerpy), (hostCmdSetDerpy, caseSetDerpy)]

/-- `switch(c)`, which has no default. -/
def dispatch (c : Byte) : Main Unit := ((cases.lookup c).getD (pure ()))

def lostMini : List Char := ['L', 'o', 's', 't', ' ', 'M', 'i', 'n', 'i', '.', '.', '.', ' ', ' ', ' ', ' ']
def lostFace : List Char := [' ', ' ', ' ', ' ', ' ', ' ', ';', '_', ';', ' ', ' ', ' ', ' ', ' ', ' ', ' ']
def usbRestored : List Char := ['U', 'S', 'B', ' ', 'R', 'e', 's', 't', 'o', 'r', 'e', 'd', '.', '.', '.', ' ']
def restoredFace : List Char :=
  [' ', ' ', ' ', ' ', ' ', 'd', '^', '_', '^', 'b', ' ', ' ', ' ', ' ', ' ', ' ']

/-- `while(IN_USBDETECT != USB_PRESENT)`. -/
def usbLost : Io Unit :=
  .loop .usbLost () (fun _ => .ask .usbPresent fun present =>
    if present then .ret (.inr ()) else .ret (.inl ())) .ret

/-- The branch of the loop of `main` without USB. -/
def lostUsb : Main Unit := do
  showString lostMini 0
  showString lostFace 1
  usbLost
  showString usbRestored 0
  showString restoredFace 1

/-- One iteration of the loop of `main`. -/
def command : Main Unit := do
  let c ← waitchar
  if ← usbPresent then dispatch (toByte c) else lostUsb

/-- `while(1)` of `main`, with the scratch variables as they are. -/
def commandLoop (m : Mem) : Io Empty :=
  .loop .command m (fun m => (command m).bind fun r => .ret (.inl r.2)) .ret

/-! ### Parts of traces -/

def memory : Mem where
  rxBuf _ := 0
  t1 := 0
  t2 := 0
  diagMsg := 1

/-- The bytes of the host as `waitchar` takes them, with the failsafe quiet. -/
def arrive (bytes : List Byte) : List MasterEvent :=
  bytes.flatMap fun b => [.call .readFailsafe false, .iter .waitchar, .call .rxByte (some b)]

def writes (req : Byte) (a : WriteAnswer) (bytes : List Byte) : List MasterEvent :=
  bytes.map fun b => .call (.busWrite b req) a

end Tortuga.Commands
