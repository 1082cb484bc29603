import Tortuga.Commands

/-!
What the commands of the host keep. An invariant that every step of a kind keeps is
kept by every command that consists of such steps.
-/
namespace Tortuga.CommandRules
open Tortuga.Programs Tortuga.BusCodes Tortuga.Master Tortuga.Commands
set_option linter.unusedSimpArgs false

variable {S : Type}

/-- The commands without parameters and without effect on the pneumatics that the
    master sends to the motor board. -/
def plainCmds : List Byte := [busCmdPing, busCmdMagPwrOn, busCmdMagPwrOff, busCmdStopDerpy]

/-- A byte that begins no frame on the motor board and moves no actuator. -/
def Plain (data req : Byte) : Prop := req = slaveIdMotor → data ∈ plainCmds

theorem plain_of_ne {req : Byte} (data : Byte) (other : req ≠ slaveIdMotor) : Plain data req :=
  fun same => absurd same other

theorem mmReads_others : ∀ s ∈ mmReads, s.1 ≠ slaveIdMotor := by
  simp only [mmReads, List.forall_mem_cons, List.not_mem_nil, false_implies, implies_true, and_true]
  decide

/-- The invariant `I` is kept by what the plain commands write to the boards. -/
structure Writes (M : Monitor Op Ans Loop Interrupt S) (I : S → Prop) : Prop where
  stable : Stable M I
  writes : ∀ data req, Plain data req → Keeps M I (busWriteByte data req)

/-- The invariant `I` is kept by what the master says and by its waiting. -/
structure Talks (M : Monitor Op Ans Loop Interrupt S) (I : S → Prop) : Prop extends Writes M I where
  waits : Keeps M I waitchar
  sends : ∀ i, Keeps M I (sendByte i)
  asks : Keeps M I usbPresent
  lost : Keeps M I usbLost

/-- The invariant `I` is kept by what the plain commands do with the boards. -/
structure Steps (M : Monitor Op Ans Loop Interrupt S) (I : S → Prop) : Prop extends Writes M I where
  reads : ∀ req, Keeps M I (busReadByte req)
  faults : ∀ s, M.faults s

/-- The invariant `I` is kept by every step that the plain commands consist of. -/
structure Serves (M : Monitor Op Ans Loop Interrupt S) (I : S → Prop) : Prop extends Talks M I, Steps M I

/-- Steps that keep `I`, and a byte for the host that leads to `J`. -/
structure Ends (M : Monitor Op Ans Loop Interrupt S) (I J : S → Prop) : Prop extends Steps M I where
  ended : Stable M J
  replies : ∀ i, Leads M I J (sendByte i)

/-- A command that waits for `N` bytes, with `A n` after `n` of them, and then ends with `J`. -/
structure Frame (M : Monitor Op Ans Loop Interrupt S) (A : ℕ → S → Prop) (N : ℕ) (J : S → Prop) : Prop
    extends Ends M (A N) J where
  kept : ∀ n, Stable M (A n)
  hears : ∀ n, n < N → Leads M (A n) (A (n + 1)) waitchar

/-- `G` of a command when what it does once it is repeated keeps `I`. -/
structure Confirms (M : Monitor Op Ans Loop Interrupt S) (I : S → Prop) (cmd : Byte) (G : Main Unit → Prop) : Prop
    extends Ends M I I where
  t1 : ∀ rest, LeadsAll M I I rest → G (confirmT1 cmd rest)
  t : ∀ rest, LeadsAll M I I rest → G (confirm cmd rest)
  byte : ∀ rest, LeadsAll M I I rest → G (do
    let t1 ← waitchar
    if toByte t1 ≠ cmd then sendByte hostReplyBadchksum else rest)
  cell : ∀ rest, LeadsAll M I I rest → G (do
    receive 0
    if (← rx 0) ≠ cmd then sendByte hostReplyBadchksum else rest)

variable {M : Monitor Op Ans Loop Interrupt S} {I J : S → Prop}

/-! ### Waiting -/

/-- The steps of `waitchar`: `Idle` before a look at the failsafe, `Clear` after it,
    `Looked` inside an iteration and `Q` at the end. -/
structure Waits (M : Monitor Op Ans Loop Interrupt S) (Idle Clear Looked : S → Prop) (Q : Int → S → Prop) : Prop where
  clear : Stable M Clear
  looked : Stable M Looked
  post : ∀ x, Stable M (Q x)
  check : ∀ s, Idle s → wp M checkFailsafe (fun _ => Clear) s
  again : ∀ s, Looked s → Idle s
  iter : ∀ s, Clear s → M.allows s (.iter .waitchar) →
    M.demands s (.iter .waitchar) ∧ Looked (M.next s (.iter .waitchar))
  byte : ∀ s x, Looked s → M.allows s (.call .rxByte (some x)) →
    M.demands s (.call .rxByte (some x)) ∧ Q x.toNat (M.next s (.call .rxByte (some x)))
  empty : ∀ s, Looked s → M.allows s (.call .rxByte none) →
    M.demands s (.call .rxByte none) ∧ Looked (M.next s (.call .rxByte none))
  present : ∀ s, Looked s → M.allows s (.call .usbPresent true) →
    M.demands s (.call .usbPresent true) ∧ Looked (M.next s (.call .usbPresent true))
  lost : ∀ s, Looked s → M.allows s (.call .usbPresent false) →
    M.demands s (.call .usbPresent false) ∧ Q errNousb (M.next s (.call .usbPresent false))

/-- One iteration waits for a byte, looks for USB and then at the failsafe. -/
theorem Waits.waitchar {Idle Clear Looked : S → Prop} {Q : Int → S → Prop} (rules : Waits M Idle Clear Looked Q)
    (s : S) (idle : Idle s) : wp M waitchar Q s := by
  refine wp_bind (wp_mono (fun _ t clear => ?_) (rules.check s idle))
  intro u rely
  refine ⟨fun _ => Clear, rules.clear.rely rely clear, ?_⟩
  intro _ v clear w rely allowed
  obtain ⟨iterates, looked⟩ := rules.iter w (rules.clear.rely rely clear) allowed
  refine ⟨iterates, ?_⟩
  intro t rely found allowed
  have looked := rules.looked.rely rely looked
  cases found with
  | some x =>
    obtain ⟨hears, post⟩ := rules.byte t x looked allowed
    refine ⟨hears, ?_⟩
    intro u rely v rely'
    exact (rules.post x.toNat).rely rely' ((rules.post x.toNat).rely rely post)
  | none =>
    obtain ⟨waits, looked⟩ := rules.empty t looked allowed
    refine ⟨waits, ?_⟩
    intro u rely present allowed
    have looked := rules.looked.rely rely looked
    cases present with
    | true =>
      obtain ⟨asks, looked⟩ := rules.present u looked allowed
      refine ⟨asks, wp_bind (wp_mono ?_ (rules.check _ (rules.again _ looked)))⟩
      intro _ v clear w rely
      exact rules.clear.rely rely clear
    | false =>
      obtain ⟨asks, post⟩ := rules.lost u looked allowed
      refine ⟨asks, ?_⟩
      intro v rely w rely'
      exact (rules.post errNousb).rely rely' ((rules.post errNousb).rely rely post)

namespace Writes
variable (writes : Writes M I)
include writes

theorem showFrom (line : ℕ) (str : List Char) (i : ℕ) : Keeps M I (showFrom line i str) := by
  have last : Keeps M I (do let _ ← busWriteByte busCmdLcdRefresh slaveIdLcd) :=
    (writes.writes _ _ (plain_of_ne _ (by decide))).bind (fun _ => .ret writes.stable _)
  induction str generalizing i with
  | nil => exact last
  | cons c rest ih =>
    rw [Master.showFrom]
    split
    · refine (writes.writes _ _ (plain_of_ne _ (by decide))).bind (fun _ => ?_)
      refine (writes.writes _ _ (plain_of_ne _ (by decide))).bind (fun _ => ?_)
      exact (writes.writes _ _ (plain_of_ne _ (by decide))).bind (fun _ => ih (i + 1))
    · exact last

theorem showString (str : List Char) (line : ℕ) : KeepsAll M I (liftM (showString str line) : Main Unit) :=
  .lift writes.stable (writes.showFrom line str 0)

theorem write {data req : Byte} (plain : Plain data req) :
    KeepsAll M I (liftM (busWriteByte data req) : Main Int) := .lift writes.stable (writes.writes data req plain)

theorem lostUsb (lost : Keeps M I usbLost) : KeepsAll M I lostUsb :=
  (writes.showString _ 0).bind (fun _ => (writes.showString _ 1).bind (fun _ =>
    (KeepsAll.lift writes.stable lost).bind (fun _ =>
      (writes.showString _ 0).bind (fun _ => writes.showString _ 1))))

end Writes

theorem Talks.lostUsb (talks : Talks M I) : KeepsAll M I lostUsb := talks.toWrites.lostUsb talks.lost

/-! ### Steps between the first byte and the reply -/

namespace Steps
variable (steps : Steps M I)
include steps

theorem modify (f : Mem → Mem) : KeepsAll M I (modify f : Main Unit) := .modify steps.stable f

theorem setRx (i : ℕ) (b : Byte) : KeepsAll M I (setRx i b) :=
  .ite (steps.modify _) (.fault steps.faults)

theorem rx (i : ℕ) : KeepsAll M I (rx i) := .bind (.get steps.stable) (fun _ => .pure steps.stable _)

theorem entry (table : List Byte) (i : Int) : KeepsAll M I (entry table i) := by
  unfold Master.entry
  split
  · split
    · exact .pure steps.stable _
    · exact .fault steps.faults
  · exact .fault steps.faults

theorem readFrom (req : Byte) (rxLen : Int) (count rxPtr : ℕ) : KeepsAll M I (readFrom req rxLen rxPtr count) := by
  induction count generalizing rxPtr with
  | zero => exact (steps.setRx rxPtr 0).bind (fun _ => .pure steps.stable _)
  | succ count ih =>
    refine (KeepsAll.lift steps.stable (steps.reads req)).bind (fun rxData => ?_)
    exact .ite (.pure steps.stable _) ((steps.setRx rxPtr _).bind (fun _ => ih (rxPtr + 1)))

theorem readDataBlock (req : Byte) : KeepsAll M I (readDataBlock req) := by
  refine (steps.setRx 0 0).bind (fun _ => (KeepsAll.lift steps.stable (steps.reads req)).bind (fun rxLen => ?_))
  exact .ite (.pure steps.stable _) (steps.readFrom req rxLen _ 0)

theorem pingSlave (i : Byte) : KeepsAll M I (pingSlave i) :=
  (steps.write (fun _ => .head _)).bind (fun _ =>
    .ite ((steps.readDataBlock i).bind (fun _ => .pure steps.stable _)) (.pure steps.stable 1))

theorem pingSlaves (count i : ℕ) : KeepsAll M I (pingSlaves i count) := by
  induction count generalizing i with
  | zero => exact .pure steps.stable _
  | succ count ih => exact (steps.pingSlave _).bind (fun _ => (ih (i + 1)).bind (fun _ => .pure steps.stable _))

theorem printChars (count i : ℕ) : KeepsAll M I (printChars i count) := by
  induction count generalizing i with
  | zero => exact .pure steps.stable _
  | succ count ih =>
    refine (steps.write (plain_of_ne _ (by decide))).bind (fun _ => (steps.rx 16).bind (fun _ => ?_))
    refine (steps.write (plain_of_ne _ (by decide))).bind (fun _ => (steps.rx i).bind (fun _ => ?_))
    exact (steps.write (plain_of_ne _ (by decide))).bind (fun _ => .ite (ih (i + 1)) (.pure steps.stable _))

theorem countErr (r : Int) : KeepsAll M I (countErr r) := steps.modify _

theorem sendDistro (count i : ℕ) : KeepsAll M I (sendDistro i count) := by
  induction count generalizing i with
  | zero => exact .pure steps.stable _
  | succ count ih =>
    refine (steps.rx (2 * i)).bind (fun _ => (steps.rx (2 * i + 1)).bind (fun _ => ?_))
    exact (steps.write (plain_of_ne _ (by decide))).bind (fun r => (steps.countErr r).bind (fun _ => ih (i + 1)))

theorem informDistro : KeepsAll M I informDistro :=
  (steps.write (plain_of_ne _ (by decide))).bind (fun r => .ite (steps.sendDistro 6 0) (steps.countErr r))

theorem readMotors (slaves : List (Byte × Byte)) (others : ∀ s ∈ slaves, s.1 ≠ slaveIdMotor) :
    KeepsAll M I (readMotors slaves) := by
  induction slaves with
  | nil => exact .pure steps.stable _
  | cons s rest ih =>
    have later := ih (fun t member => others t (.tail _ member))
    refine (steps.write (plain_of_ne _ (others s (.head _)))).bind (fun _ => (steps.countErr _).bind (fun _ => ?_))
    refine (steps.readDataBlock _).bind (fun _ => (steps.countErr _).bind (fun _ => (steps.rx 0).bind (fun _ => ?_)))
    exact later.bind (fun _ => .pure steps.stable _)

end Steps

/-! ### Replies -/

namespace Ends

section
variable (ends : Ends M I J)
include ends

theorem send (i : Byte) : LeadsAll M I J (liftM (sendByte i) : Main Unit) := .lift ends.ended (ends.replies i)

theorem success : LeadsAll M I J success := ends.send _

section
variable {rest : Main Unit} (holds : LeadsAll M I J rest)
include holds

theorem writeOrFail {data req : Byte} (plain : Plain data req) : LeadsAll M I J (writeOrFail data req rest) :=
  (ends.write plain).before (fun _ => .ite (ends.send _) holds)

theorem readOrFail (req : Byte) (len : Int) : LeadsAll M I J (readOrFail req len rest) :=
  (ends.readDataBlock req).before (fun _ => .ite (ends.send _) holds)

/-- A write to another board than the motor board, whatever the byte. -/
theorem ask (data : Byte) {req : Byte} (other : req ≠ slaveIdMotor) : LeadsAll M I J (Master.writeOrFail data req rest) :=
  ends.writeOrFail holds (plain_of_ne data other)

theorem readReg (reg : Byte) : LeadsAll M I J (readReg reg rest) :=
  ends.ask (ends.ask (ends.readOrFail holds _ 1) reg (by decide)) _ (by decide)

theorem writeReg (reg data : Byte) : LeadsAll M I J (writeReg reg data rest) :=
  ends.ask (ends.ask (ends.ask holds data (by decide)) reg (by decide)) _ (by decide)

end

/-- A byte that another board is asked for. -/
theorem askByte (busCmd : Byte) {slave : Byte} (other : slave ≠ slaveIdMotor) {rest : Byte → Main Unit}
    (holds : ∀ b, LeadsAll M I J (rest b)) :
    LeadsAll M I J (Master.writeOrFail busCmd slave (Master.readOrFail slave 1 (Master.rx 0 >>= rest))) :=
  ends.ask (ends.readOrFail ((ends.rx 0).before holds) slave 1) busCmd other

/-- A parameter that selects a byte of a table. -/
theorem select (table : List Byte) (i : Int) {slave : Byte} (other : slave ≠ slaveIdMotor) :
    LeadsAll M I J (do Master.writeOrFail (← Master.entry table i) slave Master.success) :=
  (ends.entry table i).before (fun _ => ends.ask ends.success _ other)

end

section
variable (ends : Ends M I I)
include ends

theorem sendRx (count first : ℕ) : LeadsAll M I I (sendRx first count) := by
  induction count generalizing first with
  | zero => exact KeepsAll.pure ends.stable ()
  | succ count ih => exact (ends.rx first).before (fun b => (ends.send b).bind (fun _ => ih (first + 1)))

theorem sendReply (reply : Byte) (count : ℕ) : LeadsAll M I I (sendReply reply count) :=
  (ends.send reply).bind (fun _ => (ends.sendRx count 0).bind (fun _ =>
    (KeepsAll.get ends.stable).before (fun _ => ends.send _)))

theorem sendAll (bytes : List Byte) : Keeps M I (sendAll bytes) := by
  induction bytes with
  | nil => exact .ret ends.stable ()
  | cons b rest ih => exact (ends.replies b).bind (fun _ => ih)

end
end Ends

/-! ### Repeated commands -/

namespace Confirms
variable {cmd : Byte} {G : Main Unit → Prop} (confirms : Confirms M I cmd G)
include confirms

theorem switchT1 {busCmd slave : Byte} (plain : Plain busCmd slave) : G (switchT1 cmd busCmd slave) :=
  confirms.t1 _ (confirms.writeOrFail confirms.success plain)

theorem switch {busCmd slave : Byte} (plain : Plain busCmd slave) : G (switch cmd busCmd slave) :=
  confirms.t _ (confirms.writeOrFail confirms.success plain)

theorem report (busCmd : Byte) {slave : Byte} (len : ℕ) (reply : Byte) (other : slave ≠ slaveIdMotor) :
    G (report cmd busCmd slave len reply) :=
  confirms.t1 _ (confirms.ask (confirms.readOrFail (confirms.sendReply reply len) slave len) busCmd other)

theorem simpleCmd (replyCode busCmd : Byte) {slave : Byte} (other : slave ≠ slaveIdMotor) :
    G (simpleCmd cmd replyCode slave busCmd) := by
  refine confirms.byte _ (confirms.ask (confirms.readOrFail ?_ slave 1) busCmd other)
  exact (confirms.send _).bind (fun _ => (confirms.rx 0).before (fun b => (confirms.send b).bind (fun _ =>
    (confirms.rx 0).before (fun _ => confirms.send _))))

end Confirms

section
variable {G : Main Unit → Prop}

theorem syscheck (confirms : Confirms M I hostCmdSyscheck G) : G caseSyscheck :=
  confirms.t1 _ ((confirms.pingSlaves _ 0).before (fun _ => .ite (confirms.send _) (confirms.send _)))

theorem readOvrlimit (confirms : Confirms M I hostCmdReadOvrlimit G) : G caseReadOvrlimit := by
  refine confirms.t1 _ (confirms.readReg ((confirms.rx 0).before (fun _ => (confirms.modify _).before (fun _ => ?_))) 0)
  refine confirms.readReg ((KeepsAll.get confirms.stable).before (fun _ => (confirms.setRx 1 _).before (fun _ => ?_))) 1
  refine (confirms.send _).bind (fun _ => (confirms.rx 1).before (fun _ => (confirms.send _).bind (fun _ => ?_)))
  exact (confirms.rx 0).before (fun _ => (confirms.send _).bind (fun _ =>
    (KeepsAll.get confirms.stable).before (fun _ => confirms.send _)))

theorem boardstatus (confirms : Confirms M I hostCmdBoardstatus G) : G caseBoardstatus := by
  refine confirms.t1 _ ((confirms.modify _).before (fun _ => ?_))
  refine confirms.askByte _ (by decide) (fun _ => (confirms.modify _).before (fun _ => ?_))
  refine confirms.askByte _ (by decide) (fun _ => (confirms.modify _).before (fun _ => ?_))
  refine confirms.ask (confirms.readOrFail ((KeepsAll.get confirms.stable).before (fun _ => ?_)) _ 1) _ (by decide)
  refine (confirms.rx 0).before (fun _ => (confirms.modify _).before (fun _ => ?_))
  refine (KeepsAll.get confirms.stable).before (fun _ => (confirms.setRx 0 _).before (fun _ => ?_))
  exact (KeepsAll.get confirms.stable).before (fun _ => (confirms.setRx 1 _).before (fun _ => confirms.sendReply _ 2))

theorem temperature (confirms : Confirms M I hostCmdTemperature G) : G caseTemperature := by
  refine confirms.t1 _ ?_
  refine confirms.askByte _ (by decide) (fun _ => (confirms.modify _).before (fun _ => ?_))
  refine confirms.askByte _ (by decide) (fun _ => (confirms.modify _).before (fun _ => ?_))
  refine confirms.ask (confirms.readOrFail ?_ _ 5) _ (by decide)
  refine (KeepsAll.get confirms.stable).before (fun _ => (confirms.setRx 5 _).before (fun _ => ?_))
  exact (KeepsAll.get confirms.stable).before (fun _ => (confirms.setRx 6 _).before (fun _ => confirms.sendReply _ 7))

theorem motorRead (confirms : Confirms M I hostCmdMotorRead G) : G caseMotorRead := by
  refine confirms.t1 _ ((confirms.modify _).before (fun _ => ?_))
  refine (confirms.readMotors mmReads mmReads_others).before (fun _ => ?_)
  refine (KeepsAll.get confirms.stable).before (fun _ => .ite (confirms.send _) ((confirms.send _).bind (fun _ => ?_)))
  exact (KeepsAll.lift confirms.stable (confirms.sendAll _)).before (fun _ => confirms.send _)

theorem imotor (confirms : Confirms M I hostCmdImotor G) : G caseImotor :=
  confirms.cell _ (confirms.ask (confirms.readOrFail (confirms.sendReply _ 16) _ 16) _ (by decide))

theorem derpyOff (confirms : Confirms M I hostCmdDerpyOff G) : G caseDerpyOff :=
  confirms.t _ (confirms.ask (confirms.writeOrFail confirms.success (fun _ => by decide)) _ (by decide))

end

/-! ### Commands with parameters -/

namespace Frame
variable {A : ℕ → S → Prop} {N : ℕ}

section
variable (frame : Frame M A N J)
include frame

theorem waitchar {n : ℕ} (room : n < N) : LeadsAll M (A n) (A (n + 1)) (liftM waitchar : Main Int) :=
  .lift (frame.kept (n + 1)) (frame.hears n room)

theorem receive {n : ℕ} (room : n < N) (i : ℕ) : LeadsAll M (A n) (A (n + 1)) (receive i) :=
  (frame.waitchar room).bind (fun _ =>
    KeepsAll.ite (.modify (frame.kept (n + 1)) _) (.fault frame.faults))

theorem receiveFrom (count first : ℕ) {n : ℕ} (room : n + count ≤ N) :
    LeadsAll M (A n) (A (n + count)) (receiveFrom first count) := by
  induction count generalizing n first with
  | zero => exact KeepsAll.pure (frame.kept n) ()
  | succ count ih =>
    have later := ih (first + 1) (n := n + 1) (by omega)
    rw [show n + 1 + count = n + (count + 1) by omega] at later
    exact (frame.receive (by omega) first).bind (fun _ => later)

end

theorem param (frame : Frame M A 2 J) (cmd : Byte) (valid : Byte → Bool) {rest : Byte → Main Unit}
    (holds : ∀ b, LeadsAll M (A 2) J (rest b)) : LeadsAll M (A 0) J (param cmd valid rest) :=
  (frame.receiveFrom 2 0 (n := 0) (by decide)).bind (fun _ =>
    (KeepsAll.get frame.stable).before (fun _ => .ite (frame.send _) (holds _)))

theorem set (frame : Frame M A 2 J) (cmd : Byte) (valid : Byte → Bool) (table : List Byte) {slave : Byte}
    (other : slave ≠ slaveIdMotor) : LeadsAll M (A 0) J (Master.param cmd valid fun b => do
      Master.writeOrFail (← Master.entry table b.toNat) slave Master.success) :=
  frame.param cmd valid (fun _ => frame.select table _ other)

theorem setBars (frame : Frame M A 2 J) (cmd busCmd : Byte) (valid : Byte → Bool) :
    LeadsAll M (A 0) J (Master.param cmd valid fun b =>
      Master.writeOrFail busCmd slaveIdBars (Master.writeOrFail b slaveIdBars Master.success)) :=
  frame.param cmd valid (fun b => frame.ask (frame.ask frame.success b (by decide)) busCmd (by decide))

theorem ping (frame : Frame M A 1 J) : LeadsAll M (A 0) J casePing :=
  (frame.waitchar (by decide)).bind (fun _ => (frame.modify _).before (fun _ => .ite (frame.send _) (frame.send _)))

theorem setOvrlimit (frame : Frame M A 3 J) : LeadsAll M (A 0) J caseSetOvrlimit :=
  (frame.receiveFrom 3 0 (n := 0) (by decide)).bind (fun _ => (KeepsAll.get frame.stable).before (fun _ =>
    .ite (frame.send _) (frame.writeReg (frame.writeReg frame.success 1 _) 0 _)))

theorem switchpower (frame : Frame M A 2 J) : LeadsAll M (A 0) J caseSwitchpower :=
  frame.param _ _ (fun _ => (frame.write (plain_of_ne _ (by decide))).before (fun _ =>
    (frame.modify _).before (fun _ => .ite (frame.send _) (frame.send _))))

theorem hardkill (frame : Frame M A 5 J) : LeadsAll M (A 0) J caseHardkill :=
  (frame.receiveFrom 5 0 (n := 0) (by decide)).bind (fun _ => (KeepsAll.get frame.stable).before (fun _ =>
    .ite (frame.send _) (frame.ask frame.success _ (by decide))))

theorem thrusters (frame : Frame M A 7 J) : LeadsAll M (A 0) J caseThrusters := by
  refine (frame.receiveFrom 5 0 (n := 0) (by decide)).bind (fun _ => ?_)
  refine (frame.waitchar (n := 5) (by decide)).bind (fun _ => (KeepsAll.modify (frame.kept 6) _).before (fun _ => ?_))
  refine (frame.waitchar (n := 6) (by decide)).bind (fun _ => ?_)
  refine (frame.modify _).before (fun _ => (KeepsAll.get frame.stable).before (fun _ => ?_))
  exact .ite (frame.send _) (frame.select tkCommands _ (by decide))

theorem battctl (frame : Frame M A 2 J) : LeadsAll M (A 0) J caseBattctl :=
  (frame.receiveFrom 2 0 (n := 0) (by decide)).bind (fun _ => (KeepsAll.get frame.stable).before (fun _ =>
    .ite (frame.send _) (frame.select battCommands _ (by decide))))

theorem printtext (frame : Frame M A 18 J) : LeadsAll M (A 0) J casePrinttext := by
  refine (frame.receive (n := 0) (by decide) 16).bind (fun _ => ?_)
  refine (frame.receiveFrom 16 0 (n := 1) (by decide)).bind (fun _ => ?_)
  refine (frame.receive (n := 17) (by decide) 17).bind (fun _ => (KeepsAll.get frame.stable).before (fun _ => ?_))
  refine .ite (frame.send _) ((frame.printChars 16 0).before (fun _ => ?_))
  exact (frame.write (plain_of_ne _ (by decide))).before (fun _ => .ite (frame.send _) (frame.send _))

theorem runtimediag (frame : Frame M A 2 J) : LeadsAll M (A 0) J caseRuntimediag :=
  frame.param _ _ (fun _ => (frame.modify _).before (fun _ => (frame.showString _ 1).before (fun _ => frame.success)))

end Frame

/-! ### All of them -/

/-- The commands that send frames with parameters to the motor board, or move actuators. -/
def motorCases : List Byte :=
  [hostCmdMarker, hostCmdSetspeed, hostCmdFireTorp1, hostCmdFireTorp2, hostCmdArmTorp1, hostCmdArmTorp2,
    hostCmdVoidTorp1, hostCmdVoidTorp2, hostCmdExtGrabber, hostCmdRetGrabber, hostCmdVoidGrabber,
    hostCmdVoidPneu, hostCmdOffPneu, hostCmdSetDerpy]

/-- The bytes that a command waits for after its first. -/
def params (c : Byte) : ℕ :=
  if c = hostCmdSync then 0
  else if c = hostCmdSetOvrlimit then 3
  else if c = hostCmdHardkill then 5
  else if c = hostCmdThrusters ∨ c = hostCmdSetDerpy then 7
  else if c = hostCmdSetspeed then 13
  else if c = hostCmdPrinttext then 18
  else if c = hostCmdSwitchpower ∨ c = hostCmdMarker ∨ c = hostCmdBacklight ∨ c = hostCmdBfinState ∨
    c = hostCmdBaranimation ∨ c = hostCmdSetBars ∨ c = hostCmdBars ∨ c = hostCmdBattctl ∨ c = hostCmdRuntimediag then 2
  else if (cases.lookup c).isSome then 1
  else 0

/-- The text of the display is the longest frame. -/
theorem params_le (c : Byte) : params c ≤ 18 := by
  unfold params
  repeat' split
  all_goals decide

/-- What every command does with the steps it consists of: `A c n` holds after `c` and `n` of
    its bytes, `B` once a command is repeated and `J` at the end. -/
structure Speaks (M : Monitor Op Ans Loop Interrupt S) (A : Byte → ℕ → S → Prop) (B J : S → Prop) : Prop where
  frame : ∀ c, c ≠ hostCmdSync → Frame M (A c) (params c) J
  confirms : ∀ c, c ≠ hostCmdSync → params c = 1 → Confirms M B c (LeadsAll M (A c 0) J)
  sync : LeadsAll M (A hostCmdSync 0) J success
  skips : ∀ c s, cases.lookup c = none → A c 0 s → J s

namespace Speaks
variable {A : Byte → ℕ → S → Prop} {B : S → Prop} (speaks : Speaks M A B J)
include speaks

theorem frameOf (c : Byte) (N : ℕ) (count : params c = N) (other : c ≠ hostCmdSync) : Frame M (A c) N J :=
  count ▸ speaks.frame c other

end Speaks

/-- Every other command consists of plain steps. -/
theorem plain_cases {A : Byte → ℕ → S → Prop} {B : S → Prop} (speaks : Speaks M A B J) :
    ∀ p ∈ cases, p.1 ∉ motorCases → LeadsAll M (A p.1 0) J p.2 := by
  have skip : ∀ (c : Byte) (p : Main Unit), c ∈ motorCases → (c ∉ motorCases → LeadsAll M (A c 0) J p) :=
    fun c p member absent => absurd member absent
  have frame (c : Byte) (N : ℕ) (count : params c = N) (other : c ≠ hostCmdSync) : Frame M (A c) N J :=
    speaks.frameOf c N count other
  have confirms (c : Byte) (count : params c = 1) (other : c ≠ hostCmdSync) :
    Confirms M B c (LeadsAll M (A c 0) J) := speaks.confirms c other count
  simp only [cases, List.forall_mem_cons, List.not_mem_nil, false_implies, implies_true, and_true]
  exact ⟨
    fun _ => speaks.sync, fun _ => (frame hostCmdPing 1 (by decide) (by decide)).ping,
    fun _ => syscheck (confirms _ (by decide) (by decide)),
    fun _ => (confirms _ (by decide) (by decide)).report _ 2 _ (by decide),
    fun _ => (confirms _ (by decide) (by decide)).simpleCmd _ _ (by decide),
    fun _ => (confirms _ (by decide) (by decide)).simpleCmd _ _ (by decide),
    fun _ => (confirms _ (by decide) (by decide)).switchT1 (plain_of_ne _ (by decide)),
    fun _ => (confirms _ (by decide) (by decide)).switchT1 (plain_of_ne _ (by decide)),
    fun _ => (confirms _ (by decide) (by decide)).simpleCmd _ _ (by decide),
    fun _ => (confirms _ (by decide) (by decide)).simpleCmd _ _ (by decide),
    fun _ => readOvrlimit (confirms _ (by decide) (by decide)),
    fun _ => (frame hostCmdSetOvrlimit 3 (by decide) (by decide)).setOvrlimit,
    fun _ => (frame hostCmdSwitchpower 2 (by decide) (by decide)).switchpower,
    fun _ => boardstatus (confirms _ (by decide) (by decide)),
    fun _ => (frame hostCmdHardkill 5 (by decide) (by decide)).hardkill,
    skip _ _ (by decide),
    fun _ => (frame hostCmdBacklight 2 (by decide) (by decide)).set _ _ _ (by decide),
    fun _ => (frame hostCmdBfinState 2 (by decide) (by decide)).set _ _ _ (by decide),
    fun _ => (frame hostCmdBaranimation 2 (by decide) (by decide)).setBars _ _ _,
    fun _ => (frame hostCmdSetBars 2 (by decide) (by decide)).setBars _ _ _,
    fun _ => (frame hostCmdThrusters 7 (by decide) (by decide)).thrusters,
    fun _ => (frame hostCmdBars 2 (by decide) (by decide)).set _ _ _ (by decide),
    fun _ => (frame hostCmdBattctl 2 (by decide) (by decide)).battctl,
    fun _ => temperature (confirms _ (by decide) (by decide)),
    fun _ => (frame hostCmdPrinttext 18 (by decide) (by decide)).printtext,
    fun _ => (confirms _ (by decide) (by decide)).report _ sonarPacketLen _ (by decide),
    fun _ => (confirms _ (by decide) (by decide)).switchT1 (plain_of_ne _ (by decide)),
    fun _ => (frame hostCmdRuntimediag 2 (by decide) (by decide)).runtimediag,
    skip _ _ (by decide), fun _ => motorRead (confirms _ (by decide) (by decide)),
    fun _ => imotor (confirms _ (by decide) (by decide)),
    fun _ => (confirms _ (by decide) (by decide)).report _ 10 _ (by decide),
    fun _ => (confirms _ (by decide) (by decide)).report _ 14 _ (by decide),
    fun _ => (confirms _ (by decide) (by decide)).report _ 12 _ (by decide),
    fun _ => (confirms _ (by decide) (by decide)).switchT1 (plain_of_ne _ (by decide)),
    fun _ => (confirms _ (by decide) (by decide)).switchT1 (plain_of_ne _ (by decide)),
    fun _ => (confirms _ (by decide) (by decide)).switch (fun _ => by decide),
    fun _ => (confirms _ (by decide) (by decide)).switch (fun _ => by decide),
    skip _ _ (by decide), skip _ _ (by decide), skip _ _ (by decide), skip _ _ (by decide), skip _ _ (by decide),
    skip _ _ (by decide), skip _ _ (by decide), skip _ _ (by decide), skip _ _ (by decide), skip _ _ (by decide),
    skip _ _ (by decide), fun _ => (confirms _ (by decide) (by decide)).switch (plain_of_ne _ (by decide)),
    fun _ => derpyOff (confirms _ (by decide) (by decide)),
    fun _ => (confirms _ (by decide) (by decide)).switch (fun _ => by decide), skip _ _ (by decide)⟩

theorem dispatch_plain {A : Byte → ℕ → S → Prop} {B : S → Prop} (speaks : Speaks M A B J) {c : Byte}
    (plain : c ∉ motorCases) : LeadsAll M (A c 0) J (dispatch c) := by
  unfold dispatch
  cases found : cases.lookup c with
  | none =>
    by_cases sync : c = hostCmdSync
    · subst sync
      exact absurd found (by simp [cases])
    · have frame := speaks.frame c sync
      exact fun _ s inv _ rely => frame.ended.rely rely (speaks.skips c s found inv)
  | some p =>
    obtain ⟨before, after, split, -⟩ := List.lookup_eq_some_iff.mp found
    have member : (c, p) ∈ cases := by simp [split]
    exact plain_cases speaks (c, p) member plain

/-! ### Steps that keep what every write keeps -/

section
variable (writes : ∀ data req, Keeps M I (busWriteByte data req))
include writes

theorem any_writeOrFail (ends : Ends M I J) {rest : Main Unit} (holds : LeadsAll M I J rest) (data req : Byte) :
    LeadsAll M I J (writeOrFail data req rest) :=
  (KeepsAll.lift ends.stable (writes data req)).before (fun _ => .ite (ends.send _) holds)

theorem any_switch {cmd : Byte} {G : Main Unit → Prop} (confirms : Confirms M I cmd G) (busCmd slave : Byte) :
    G (switch cmd busCmd slave) :=
  confirms.t _ (any_writeOrFail writes confirms.toEnds confirms.success busCmd slave)

theorem any_sendSpeeds (steps : Steps M I) (count i : ℕ) : KeepsAll M I (sendSpeeds i count) := by
  induction count generalizing i with
  | zero => exact .pure steps.stable _
  | succ count ih =>
    refine (steps.rx i).bind (fun _ => (steps.rx (i + 1)).bind (fun _ => ?_))
    exact (KeepsAll.lift steps.stable (writes _ _)).bind (fun r => (steps.countErr r).bind (fun _ => ih (i + 2)))

theorem any_setSpeeds (ends : Ends M I J) : LeadsAll M I J setSpeeds := by
  refine (ends.modify _).before (fun _ => (KeepsAll.lift ends.stable (writes _ _)).before (fun _ => ?_))
  refine (any_sendSpeeds writes ends.toSteps 6 0).before (fun _ => ends.informDistro.before (fun _ => ?_))
  exact (KeepsAll.get ends.stable).before (fun _ => .ite (ends.send _) (ends.send _))

end

theorem any_setDerpy {A : ℕ → S → Prop} (frame : Frame M A 7 J)
    (writes : ∀ data req, Keeps M (A 7) (busWriteByte data req)) : LeadsAll M (A 0) J caseSetDerpy := by
  refine (frame.receiveFrom 7 0 (n := 0) (by decide)).bind (fun _ => (KeepsAll.get frame.stable).before (fun _ => ?_))
  refine .ite (frame.send _) (.ite (frame.send _) ?_)
  exact any_writeOrFail writes frame.toEnds (any_writeOrFail writes frame.toEnds frame.success _ _) _ _

theorem any_dispatch {A : Byte → ℕ → S → Prop} {B : S → Prop} (speaks : Speaks M A B J)
    (writes : ∀ c n data req, Keeps M (A c n) (busWriteByte data req))
    (confirmed : ∀ data req, Keeps M B (busWriteByte data req))
    (arms : Keeps M (A hostCmdSetspeed 0) setMotorFailsafe) (c : Byte) : LeadsAll M (A c 0) J (dispatch c) := by
  have switches (c busCmd : Byte) (count : params c = 1) (other : c ≠ hostCmdSync) (slave : Byte) :
      LeadsAll M (A c 0) J (switch c busCmd slave) := any_switch confirmed (speaks.confirms c other count) busCmd slave
  by_cases special : c ∈ motorCases
  · simp only [motorCases, List.mem_cons, List.not_mem_nil, or_false] at special
    rcases special with rfl | rfl | rfl | rfl | rfl | rfl | rfl | rfl | rfl | rfl | rfl | rfl | rfl | rfl
    · show LeadsAll M (A hostCmdMarker 0) J caseMarker
      have frame := speaks.frameOf hostCmdMarker 2 (by decide) (by decide)
      exact frame.param _ _ (fun _ => any_writeOrFail (writes _ 2) frame.toEnds frame.success _ _)
    · have frame := speaks.frameOf hostCmdSetspeed 13 (by decide) (by decide)
      exact (KeepsAll.lift (frame.kept 0) arms).before (fun _ =>
        (frame.receiveFrom 13 0 (n := 0) (by decide)).bind (fun _ => (KeepsAll.get frame.stable).before (fun _ =>
          .ite (frame.send _) (any_setSpeeds (writes _ 13) frame.toEnds))))
    · exact switches hostCmdFireTorp1 busCmdFireTorp1 (by decide) (by decide) slaveIdTorpedo
    · exact switches hostCmdFireTorp2 busCmdFireTorp2 (by decide) (by decide) slaveIdTorpedo
    · exact switches hostCmdArmTorp1 busCmdArmTorp1 (by decide) (by decide) slaveIdTorpedo
    · exact switches hostCmdArmTorp2 busCmdArmTorp2 (by decide) (by decide) slaveIdTorpedo
    · exact switches hostCmdVoidTorp1 busCmdVoidTorp1 (by decide) (by decide) slaveIdTorpedo
    · exact switches hostCmdVoidTorp2 busCmdVoidTorp2 (by decide) (by decide) slaveIdTorpedo
    · exact switches hostCmdExtGrabber busCmdExtGrabber (by decide) (by decide) slaveIdGrabber
    · exact switches hostCmdRetGrabber busCmdRetGrabber (by decide) (by decide) slaveIdGrabber
    · exact switches hostCmdVoidGrabber busCmdVoidGrabber (by decide) (by decide) slaveIdGrabber
    · exact switches hostCmdVoidPneu busCmdVoidPneu (by decide) (by decide) slaveIdGrabber
    · exact switches hostCmdOffPneu busCmdOffPneu (by decide) (by decide) slaveIdGrabber
    · exact any_setDerpy (speaks.frameOf hostCmdSetDerpy 7 (by decide) (by decide)) (writes _ 7)
  · exact dispatch_plain speaks special

/-! ### An invariant that every step keeps -/

namespace Serves
variable (serves : Serves M I)
include serves

theorem ends : Ends M I I := { serves with ended := serves.stable, replies := serves.sends }

theorem send (i : Byte) : KeepsAll M I (liftM (sendByte i) : Main Unit) := serves.ends.send i

theorem success : KeepsAll M I success := serves.ends.success

theorem frame (N : ℕ) : Frame M (fun _ => I) N I :=
  { serves.ends with kept := fun _ => serves.stable, hears := fun _ _ => serves.waits }

theorem receiveFrom (count first : ℕ) : KeepsAll M I (receiveFrom first count) :=
  (serves.frame count).receiveFrom count first (n := 0) (by omega)

theorem confirms (cmd : Byte) : Confirms M I cmd (LeadsAll M I I) := by
  have hears : KeepsAll M I (liftM waitchar : Main Int) := .lift serves.stable serves.waits
  refine { serves.ends with t1 := fun rest holds => ?_, t := fun rest holds => ?_, byte := fun rest holds => ?_,
                            cell := fun rest holds => ?_ }
  · exact hears.bind (fun _ => (serves.modify _).bind (fun _ => .ite (serves.send _) holds))
  · exact hears.bind (fun _ => .ite (serves.send _) holds)
  · exact hears.bind (fun _ => .ite (serves.send _) holds)
  · refine ((serves.frame 1).receive (n := 0) (by decide) 0).bind (fun _ => ?_)
    exact (serves.rx 0).before (fun _ => .ite (serves.send _) holds)

theorem speaks : Speaks M (fun _ _ => I) I I where
  frame c _ := serves.frame (params c)
  confirms c _ _ := serves.confirms c
  sync := serves.success
  skips _ _ _ inv := inv

end Serves

/-- An iteration of the command loop keeps `I` after its first byte. -/
theorem command_after {I₀ : S → Prop} (serves : Serves M I)
    (first : ∀ s, I₀ s → wp M waitchar (fun _ => I) s) (cases : ∀ c, KeepsAll M I (dispatch c)) (m : Mem) (s : S)
    (inv : I₀ s) : wp M (command m) (fun _ => I) s := by
  refine wp_lift_bind (wp_mono (fun c t kept => ?_) (first s inv))
  refine wp_lift_bind (wp_mono (fun present t kept => ?_) (serves.asks t kept))
  split
  · exact cases _ m t kept
  · exact serves.lostUsb m t kept

end Tortuga.CommandRules
