import Tortuga.FrameRules

/-!
The commands of the host in lockstep: every command that checks its parameter does the
same whatever an earlier command left behind, and stays inside its arrays.
-/
namespace Tortuga.FrameCommands
open Tortuga.Programs Tortuga.Lockstep Tortuga.BusCodes Tortuga.Master Tortuga.Commands Tortuga.CommandRules
open Tortuga.FrameRules
set_option linter.unusedSimpArgs false

variable {c : Byte} {leftover : Int} {K : Known}

/-! ### Input -/

section
variable (strict : ¬ Loose c)
include strict

theorem lock_waitchar : Lock c leftover K (liftM waitchar) (fun _ => K) := .lift (quiet_talks strict).waits

theorem lock_receive {i : ℕ} (low : i < rxBufSize) : Lock c leftover K (receive i) (fun _ => K.run i 1) :=
  (lock_waitchar strict).bind (fun x => .setRx low (toByte x))

theorem lock_receiveFrom (count first : ℕ) (room : first + count ≤ rxBufSize) :
    Lock c leftover K (receiveFrom first count) (fun _ => K.run first count) := by
  induction count generalizing first K with
  | zero => exact (Lock.pure ()).weaken (fun _ => Known.run_zero_below)
  | succ count ih =>
    refine (lock_receive strict (by omega)).bind (fun _ => ?_)
    exact (ih (first + 1) (by omega)).weaken (fun _ => Known.run_succ_below)

/-! ### Shared steps -/

theorem ends_confirmT1 {rest : Main Unit} (cmd : Byte) (holds : Ends c leftover { K with t1 := True } rest) :
    Ends c leftover K (confirmT1 cmd rest) :=
  (lock_waitchar strict).ends (fun t => (Lock.setT1 t).ends (fun _ => .ite (fun _ => .send _) (fun _ => holds)))

theorem ends_confirm {rest : Main Unit} (cmd : Byte) (holds : Ends c leftover K rest) :
    Ends c leftover K (confirm cmd rest) :=
  (lock_waitchar strict).ends (fun _ => .ite (fun _ => .send _) (fun _ => holds))

/-- The checksum of a parameter, and the parameter, are bytes of the frame. -/
theorem ends_param (cmd : Byte) (valid : Byte → Bool) {rest : Byte → Main Unit}
    (holds : ∀ b, valid b = true → Ends c leftover (K.run 0 2) (rest b)) : Ends c leftover K (param cmd valid rest) := by
  refine (lock_receiveFrom strict 2 0 (by decide)).ends (fun _ => .get (fun m m' h agree => ?_) (fun m => ?_))
  · rw [agree.cells 0 (.inl (by omega)), agree.cells 1 (.inl (by omega)),
      chksum_congr (fun i low => agree.cells i (.inl (by omega)))]
  · refine .ite (fun _ => .send _) (fun good => holds _ ?_)
    simpa using fun fails => good (.inl fails)

theorem ends_switchT1 (cmd busCmd slave : Byte) : Ends c leftover K (switchT1 cmd busCmd slave) :=
  ends_confirmT1 strict cmd (.writeOrFail .success busCmd slave)

theorem ends_switch (cmd busCmd slave : Byte) : Ends c leftover K (switch cmd busCmd slave) :=
  ends_confirm strict cmd (.writeOrFail .success busCmd slave)

theorem ends_report (cmd busCmd slave : Byte) (len : ℕ) (reply : Byte) :
    Ends c leftover K (report cmd busCmd slave len reply) := by
  refine ends_confirmT1 strict cmd (.writeOrFail (.readOrFail trivial (.sendReply reply (fun i low => ?_))) busCmd slave)
  exact .inl (.inr (by omega))

theorem ends_simpleCmd (cmdCode replyCode slaveId busCmd : Byte) :
    Ends c leftover K (simpleCmd cmdCode replyCode slaveId busCmd) := by
  refine (lock_waitchar strict).ends (fun _ => .ite (fun _ => .send _) (fun _ => ?_))
  refine .writeOrFail (.readOrFail trivial ?_) busCmd slaveId
  refine (Lock.send replyCode).ends (fun _ => .rx (.inl (.inl rfl)) (fun b => (Lock.send b).ends (fun _ => ?_)))
  exact .rx (.inl (.inl rfl)) (fun _ => .send _)

/-- A parameter that selects a byte of a table, with a check that keeps it inside. -/
theorem ends_select (cmd slave : Byte) (valid : Byte → Bool) (table : List Byte)
    (inside : ∀ b, valid b = true → b.toNat < table.length) :
    Ends c leftover K (param cmd valid fun b => do writeOrFail (← entry table b.toNat) slave success) :=
  ends_param strict cmd valid (fun b good =>
    (Lock.entry table (by omega) (by have := inside b good; omega)).ends (fun data => .writeOrFail .success data slave))

theorem ends_bars (cmd busCmd : Byte) (valid : Byte → Bool) :
    Ends c leftover K (param cmd valid fun b => writeOrFail busCmd slaveIdBars (writeOrFail b slaveIdBars success)) :=
  ends_param strict cmd valid (fun b _ => .writeOrFail (.writeOrFail .success b _) busCmd _)

/-! ### Commands that are more than one shape -/

theorem ends_ping : Ends c leftover K casePing :=
  (lock_waitchar strict).ends (fun t => (Lock.setT1 t).ends (fun _ => .ite (fun _ => .send _) (fun _ => .send _)))

omit strict in
theorem lock_pingSlave (i : Byte) : Lock c leftover K (pingSlave i) (fun _ => { K with fresh := False }) := by
  refine (Lock.write busCmdPing i).bind (fun r => .ite (fun _ => ?_) (fun _ => ?_))
  · refine (Lock.readDataBlock trivial i).bind (fun len => ?_)
    exact (Lock.pure _).weaken (fun _ => Known.stale_below_block)
  · exact (Lock.pure 1).weaken (fun _ => Known.stale_below (K := { K with fresh := True }))

omit strict in
theorem lock_pingSlaves (count i : ℕ) : Lock c leftover K (pingSlaves i count) (fun _ => { K with fresh := False }) := by
  induction count generalizing i K with
  | zero => exact (Lock.pure 0).weaken (fun _ => Known.stale_below)
  | succ count ih => exact (lock_pingSlave _).bind (fun _ => (ih (i + 1)).bind (fun _ => .pure _))

theorem ends_syscheck : Ends c leftover K caseSyscheck :=
  ends_confirmT1 strict _ ((lock_pingSlaves numSlaves 0).ends (fun _ => .ite (fun _ => .send _) (fun _ => .send _)))

omit strict in
theorem ends_readReg {rest : Main Unit} (reg : Byte) (holds : Ends c leftover (K.block 1) rest) :
    Ends c leftover K (readReg reg rest) := by
  refine .writeOrFail ?_ busCmdReadReg slaveIdThrusters
  refine .writeOrFail ?_ reg slaveIdThrusters
  exact .readOrFail trivial holds

omit strict in
theorem ends_writeReg {rest : Main Unit} (reg data : Byte) (holds : Ends c leftover { K with fresh := True } rest) :
    Ends c leftover K (writeReg reg data rest) := by
  refine .writeOrFail ?_ busCmdWriteReg slaveIdThrusters
  refine .writeOrFail ?_ reg slaveIdThrusters
  refine .writeOrFail ?_ data slaveIdThrusters
  exact holds

theorem ends_readOvrlimit : Ends c leftover K caseReadOvrlimit := by
  refine ends_confirmT1 strict _ (ends_readReg 0 (.rx (.inl (.inl rfl)) (fun b => (Lock.setT1 _).ends (fun _ => ?_))))
  refine ends_readReg 1 (.get (fun m m' h agree => by rw [agree.t1 trivial]) (fun m => ?_))
  refine (Lock.setRx (by decide) _).ends (fun _ => (Lock.send _).ends (fun _ => ?_))
  refine .rx (.inl (by decide)) (fun _ => (Lock.send _).ends (fun _ => ?_))
  refine .rx (.inr (.inl (.inl rfl))) (fun _ => (Lock.send _).ends (fun _ => .get (fun m m' h agree => ?_) (fun _ => .send _)))
  have known (i : ℕ) (low : i < 2) : m.rxBuf i = m'.rxBuf i := by
    refine agree.cells i ?_
    rcases Nat.lt_succ_iff_lt_or_eq.mp low with zero | one
    · exact .inr (.inl (.inl (by omega)))
    · exact .inl (by omega)
  rw [chksum_congr known]

theorem ends_setOvrlimit : Ends c leftover K caseSetOvrlimit := by
  refine (lock_receiveFrom strict 3 0 (by decide)).ends (fun _ => .get (fun m m' h agree => ?_) (fun m => ?_))
  · rw [agree.cells 0 (.inl (by omega)), agree.cells 1 (.inl (by omega)), agree.cells 2 (.inl (by omega)),
      chksum_congr (fun i low => agree.cells i (.inl (by omega)))]
  · exact .ite (fun _ => .send _) (fun _ => ends_writeReg 0 _ (ends_writeReg 1 _ .success))

theorem ends_switchpower : Ends c leftover K caseSwitchpower :=
  ends_param strict _ _ (fun _ _ => (Lock.writes _ _).ends (fun t => (Lock.setT1 t).ends (fun _ =>
    .ite (fun _ => .send _) (fun _ => .send _))))

theorem ends_boardstatus : Ends c leftover K caseBoardstatus := by
  refine ends_confirmT1 strict _ ((Lock.setT1 0).ends (fun _ => ?_))
  refine .writeOrFail (.readOrFail trivial (.rx (.inl (.inl rfl)) (fun _ => (Lock.setT1 _).ends (fun _ => ?_)))) _ _
  refine .writeOrFail (.readOrFail trivial (.rx (.inl (.inl rfl)) (fun _ => (Lock.setT2 _).ends (fun _ => ?_)))) _ _
  refine .writeOrFail (.readOrFail trivial (.get (fun m m' h agree => by rw [agree.t2 trivial]) (fun m => ?_))) _ _
  refine .rx (.inl (.inl rfl)) (fun b => (Lock.setT2 _).ends (fun _ => ?_))
  refine .get (fun m m' h agree => by rw [agree.t2 trivial]) (fun m => (Lock.setRx (by decide) _).ends (fun _ => ?_))
  refine .get (fun m m' h agree => by rw [agree.t1 trivial]) (fun m => (Lock.setRx (by decide) _).ends (fun _ => ?_))
  refine .sendReply _ (fun i low => ?_)
  rcases Nat.lt_succ_iff_lt_or_eq.mp low with zero | one
  · exact .inr (.inl (by omega))
  · exact .inl (by omega)

omit strict in
theorem isSafety_congr {safety : List Byte} {buf buf' : ℕ → Byte} (same : ∀ i < safety.length, buf i = buf' i) :
    isSafety safety buf = isSafety safety buf' := by
  have cells (i : ℕ) (member : i ∈ List.range safety.length) : buf i = buf' i := same i (List.mem_range.mp member)
  rw [isSafety, isSafety, Bool.eq_iff_iff, List.all_eq_true, List.all_eq_true]
  exact forall₂_congr (fun i member => by rw [cells i member])

theorem ends_hardkill : Ends c leftover K caseHardkill := by
  refine (lock_receiveFrom strict 5 0 (by decide)).ends (fun _ => .get (fun m m' h agree => ?_) (fun m => ?_))
  · have known (i : ℕ) (low : i < hkSafety.length) : m.rxBuf i = m'.rxBuf i := agree.cells i (.inl ⟨Nat.zero_le i, low⟩)
    rw [isSafety_congr known]
  · exact .ite (fun _ => .send _) (fun _ => .writeOrFail .success _ _)

theorem ends_temperature : Ends c leftover K caseTemperature := by
  refine ends_confirmT1 strict _ (.writeOrFail (.readOrFail trivial ?_) _ _)
  refine .rx (.inl (.inl rfl)) (fun b => (Lock.setT1 _).ends (fun _ => .writeOrFail (.readOrFail trivial ?_) _ _))
  refine .rx (.inl (.inl rfl)) (fun b => (Lock.setT2 _).ends (fun _ => .writeOrFail (.readOrFail trivial ?_) _ _))
  refine .get (fun m m' h agree => by rw [agree.t1 trivial]) (fun m => (Lock.setRx (by decide) _).ends (fun _ => ?_))
  refine .get (fun m m' h agree => by rw [agree.t2 trivial]) (fun m => (Lock.setRx (by decide) _).ends (fun _ => ?_))
  refine .sendReply _ (fun i low => ?_)
  by_cases last : i = 6
  · exact .inl (by omega)
  · by_cases fifth : i = 5
    · exact .inr (.inl (by omega))
    · exact .inr (.inr (.inl (.inr (by omega))))

omit strict in
theorem lock_printChars (count i : ℕ) (line : K.cells 16) (chars : ∀ j, i ≤ j → j < i + count → K.cells j) :
    Lock c leftover K (printChars i count) (fun _ => K) := by
  induction count generalizing i with
  | zero => exact .pure 0
  | succ count ih =>
    refine (Lock.writes _ _).bind (fun e1 => .rx_bind line (fun _ => (Lock.writes _ _).bind (fun e2 => ?_)))
    refine .rx_bind (chars i (Nat.le_refl i) (by omega)) (fun _ => (Lock.writes _ _).bind (fun e3 => ?_))
    exact .ite (fun _ => ih (i + 1) (fun j low high => chars j (by omega) (by omega))) (fun _ => .pure _)

theorem ends_printtext : Ends c leftover K casePrinttext := by
  refine (lock_receive strict (by decide)).ends (fun _ => (lock_receiveFrom strict 16 0 (by decide)).ends (fun _ => ?_))
  refine (lock_receive strict (by decide)).ends (fun _ => .get (fun m m' h agree => ?_) (fun m => ?_))
  · have known (i : ℕ) (low : i < 18) : m.rxBuf i = m'.rxBuf i := by
      refine agree.cells i ?_
      by_cases last : i = 17
      · exact .inl (by omega)
      · by_cases line : i = 16
        · exact .inr (.inr (.inl (by omega)))
        · exact .inr (.inl (by omega))
    rw [known 16 (by omega), known 17 (by omega), chksum_congr (fun i low => known i (by omega))]
  · refine .ite (fun _ => .send _) (fun _ => ?_)
    refine Lock.ends (lock_printChars 16 0 ?_ ?_) (fun err => ?_)
    · exact .inr (.inr (.inl (by omega)))
    · exact fun j _ high => .inr (.inl (by omega))
    · exact (Lock.writes _ _).ends (fun _ => .ite (fun _ => .send _) (fun _ => .send _))

theorem ends_runtimediag : Ends c leftover K caseRuntimediag := by
  refine ends_param strict _ _ (fun b _ => ?_)
  have kept : Lock c leftover (K.run 0 2) (modify fun m => { m with diagMsg := b }) (fun _ => K.run 0 2) :=
    .modify _ (fun m m' h agree => ⟨agree.cells, agree.t1, agree.t2, agree.quiet⟩)
  exact kept.ends (fun _ => (Lock.lift ((quiet_talks strict).showFrom 1 _ 0)).ends (fun _ => .success))

/-! ### Speeds -/

omit strict in
theorem lock_sendSpeeds (count i : ℕ) (speeds : ∀ j, i ≤ j → j < i + 2 * count → K.cells j) :
    Lock c leftover K (sendSpeeds i count) (fun _ => K) := by
  induction count generalizing i with
  | zero => exact .pure ()
  | succ count ih =>
    refine .rx_bind (speeds i (Nat.le_refl i) (by omega)) (fun _ => .rx_bind (speeds (i + 1) (by omega) (by omega)) (fun _ => ?_))
    refine (Lock.writes _ _).bind (fun r => (Lock.countErr r).bind (fun _ => ?_))
    exact ih (i + 2) (fun j low high => speeds j (by omega) (by omega))

omit strict in
theorem lock_sendDistro (count i : ℕ) (speeds : ∀ j, 2 * i ≤ j → j < 2 * i + 2 * count → K.cells j) :
    Lock c leftover K (sendDistro i count) (fun _ => K) := by
  induction count generalizing i with
  | zero => exact .pure ()
  | succ count ih =>
    refine .rx_bind (speeds (2 * i) (by omega) (by omega)) (fun _ => .rx_bind (speeds (2 * i + 1) (by omega) (by omega)) (fun _ => ?_))
    refine (Lock.writes _ _).bind (fun r => (Lock.countErr r).bind (fun _ => ?_))
    exact ih (i + 1) (fun j low high => speeds j (by omega) (by omega))

omit strict in
theorem lock_informDistro (speeds : ∀ j < 12, K.cells j) : Lock c leftover K informDistro (fun _ => K) := by
  refine (Lock.writes _ _).bind (fun r => .ite (fun _ => ?_) (fun _ => .countErr r))
  exact lock_sendDistro 6 0 (fun j _ high => speeds j (by omega))

omit strict in
theorem ends_setSpeeds (speeds : ∀ j < 12, K.cells j) : Ends c leftover K setSpeeds := by
  refine (Lock.setT1 0).ends (fun _ => (Lock.writes _ _).ends (fun _ => ?_))
  refine Lock.ends (lock_sendSpeeds 6 0 (fun j _ high => speeds j (by omega))) (fun _ => ?_)
  refine Lock.ends (lock_informDistro speeds) (fun _ => .get (fun m m' h agree => by rw [agree.t1 trivial]) (fun m => ?_))
  exact .ite (fun _ => .send _) (fun _ => .send _)

theorem ends_setspeed : Ends c leftover K caseSetspeed := by
  refine (Lock.lift quiet_steady.arms).ends (fun _ => (lock_receiveFrom strict 13 0 (by decide)).ends (fun _ => ?_))
  refine .get (fun m m' h agree => ?_) (fun m => .ite (fun _ => .send _) (fun _ => ends_setSpeeds (fun j low => .inl (by omega))))
  rw [agree.cells 12 (.inl (by omega)), chksum_congr (fun i low => agree.cells i (.inl (by omega)))]

omit strict in
theorem lock_readMotors (slaves : List (Byte × Byte)) :
    Lock c leftover K (readMotors slaves) (fun _ => { K with fresh := False }) := by
  induction slaves generalizing K with
  | nil => exact (Lock.pure []).weaken (fun _ => Known.stale_below)
  | cons s rest ih =>
    refine (Lock.write _ _).bind (fun r => (Lock.countErr r).bind (fun _ => ?_))
    refine Lock.bind (Lock.readDataBlock trivial s.1) (fun len => (Lock.countErr _).bind (fun _ => ?_))
    refine .rx_bind (.inl (.inl rfl)) (fun b => ih.bind (fun resp => ?_))
    exact (Lock.pure _).weaken (fun _ => Known.stale_below_block)

theorem ends_motorRead : Ends c leftover K caseMotorRead := by
  refine ends_confirmT1 strict _ ((Lock.setT1 0).ends (fun _ => (lock_readMotors mmReads).ends (fun resp => ?_)))
  refine .get (fun m m' h agree => by rw [agree.t1 trivial]) (fun m => .ite (fun _ => .send _) (fun _ => ?_))
  exact (Lock.send _).ends (fun _ => (Lock.lift (quiet_steady.sendAll resp)).ends (fun _ => .send _))

theorem ends_imotor : Ends c leftover K caseImotor := by
  refine (lock_receive strict (by decide)).ends (fun _ => .rx (.inl (by omega)) (fun _ => .ite (fun _ => .send _) (fun _ => ?_)))
  exact .writeOrFail (.readOrFail trivial (.sendReply _ (fun i low => .inl (.inr (by omega))))) _ _

theorem ends_derpyOff : Ends c leftover K caseDerpyOff :=
  ends_confirm strict _ (.writeOrFail (.writeOrFail .success _ _) _ _)

theorem ends_setDerpy : Ends c leftover K caseSetDerpy := by
  refine (lock_receiveFrom strict 7 0 (by decide)).ends (fun _ => .get (fun m m' h agree => ?_) (fun m => ?_))
  · have known (i : ℕ) (low : i < 7) : m.rxBuf i = m'.rxBuf i := agree.cells i (.inl (by omega))
    have text (i : ℕ) (low : i < derpText.length) : m.rxBuf (i + 2) = m'.rxBuf (i + 2) :=
      known (i + 2) (by simp only [derpText, List.length_cons, List.length_nil] at low; omega)
    rw [chksum_congr (fun i low => known i (by omega)), known 6 (by omega), isSafety_congr text, known 0 (by omega),
      known 1 (by omega)]
  · refine .ite (fun _ => .send _) (fun _ => .ite (fun _ => .send _) (fun _ => ?_))
    exact .writeOrFail (.writeOrFail .success _ _) _ _

/-! ### All of them -/

theorem strict_cases : ∀ p ∈ cases, ¬ Loose p.1 → Ends c leftover K p.2 := by
  have skip (cmd : Byte) (p : Main Unit) (loose : Loose cmd) (fails : ¬ Loose cmd) : Ends c leftover K p :=
    absurd loose fails
  simp only [cases, List.forall_mem_cons, List.not_mem_nil, false_implies, implies_true, and_true]
  exact ⟨
    fun _ => .success, fun _ => ends_ping strict, fun _ => ends_syscheck strict, fun _ => ends_report strict _ _ _ 2 _,
    fun _ => ends_simpleCmd strict _ _ _ _, fun _ => ends_simpleCmd strict _ _ _ _,
    fun _ => ends_switchT1 strict _ _ _, fun _ => ends_switchT1 strict _ _ _,
    fun _ => ends_simpleCmd strict _ _ _ _, fun _ => ends_simpleCmd strict _ _ _ _,
    fun _ => ends_readOvrlimit strict, fun _ => ends_setOvrlimit strict, fun _ => ends_switchpower strict,
    fun _ => ends_boardstatus strict, fun _ => ends_hardkill strict,
    fun _ => ends_param strict _ _ (fun _ _ => .writeOrFail .success _ _),
    fun _ => ends_select strict _ _ _ _ (by decide), fun _ => ends_select strict _ _ _ _ (by decide),
    fun _ => ends_bars strict _ _ _, fun _ => ends_bars strict _ _ _, skip _ _ (by decide),
    fun _ => ends_select strict _ _ _ _ (by decide), skip _ _ (by decide), fun _ => ends_temperature strict,
    fun _ => ends_printtext strict, fun _ => ends_report strict _ _ _ sonarPacketLen _,
    fun _ => ends_switchT1 strict _ _ _, fun _ => ends_runtimediag strict, fun _ => ends_setspeed strict,
    fun _ => ends_motorRead strict, fun _ => ends_imotor strict, fun _ => ends_report strict _ _ _ 10 _,
    fun _ => ends_report strict _ _ _ 14 _, fun _ => ends_report strict _ _ _ 12 _,
    fun _ => ends_switchT1 strict _ _ _, fun _ => ends_switchT1 strict _ _ _, fun _ => ends_switch strict _ _ _,
    fun _ => ends_switch strict _ _ _, fun _ => ends_switch strict _ _ _, fun _ => ends_switch strict _ _ _,
    fun _ => ends_switch strict _ _ _, fun _ => ends_switch strict _ _ _, fun _ => ends_switch strict _ _ _,
    fun _ => ends_switch strict _ _ _, fun _ => ends_switch strict _ _ _, fun _ => ends_switch strict _ _ _,
    fun _ => ends_switch strict _ _ _, fun _ => ends_switch strict _ _ _, fun _ => ends_switch strict _ _ _,
    fun _ => ends_switch strict _ _ _, fun _ => ends_derpyOff strict, fun _ => ends_switch strict _ _ _,
    fun _ => ends_setDerpy strict⟩

end

theorem dispatch_strict (strict : ¬ Loose c) : Ends c leftover K (dispatch c) := by
  unfold dispatch
  cases found : cases.lookup c with
  | none => exact (Lock.pure ()).finish
  | some p =>
    obtain ⟨before, after, split, -⟩ := List.lookup_eq_some_iff.mp found
    have member : (c, p) ∈ cases := by simp [split]
    exact strict_cases strict (c, p) member strict

end Tortuga.FrameCommands
