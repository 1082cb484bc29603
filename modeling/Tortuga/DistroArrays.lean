import Mathlib.Data.List.Induction
import Tortuga.Distro

/-!
The arrays of the distribution board (`distro.c`): which cells each of its steps reads and
writes, and when all of them are inside their arrays.
-/
namespace Tortuga.Distro
open Tortuga.BusCodes
open Tortuga.Bitmaps (bit)
open Tortuga.Machines (after after_append)
set_option linter.unusedSimpArgs false

/-! ### Cells -/

/-- The arrays that the bus and the main loop share or that hold something for each motor. `iADCVal` has
    a row for each of the `iADCs`, and each row has the places of `history`. -/
inductive Cells where
  | cfgRegs
  | mSpeeds
  | txBuf
  | iMotor
  | iADCs
  | iADCVal
  | history
  deriving DecidableEq, Repr

def Cells.size : Cells → ℕ
  | .cfgRegs => 16
  | .mSpeeds => 6
  | .txBuf => 60
  | .iMotor => 8
  | .iADCs => 11
  | .iADCVal => 11
  | .history => 16

/-- A cell of an array, which need not be there. -/
abbrev Cell := Cells × ℕ

def Cell.Inside (c : Cell) : Prop := c.2 < c.1.size

instance (c : Cell) : Decidable c.Inside := inferInstanceAs (Decidable (_ < _))

/-- The first cells of an array. -/
def firstCells (a : Cells) (count : ℕ) : List Cell := (List.range count).map fun i => (a, i)

/-- The cells of `txBuf` that a command stores a reply in. -/
def replyLength (data : Byte) : ℕ :=
  if data = busCmdPing then 1
  else if data = busCmdId then 13
  else if data = busCmdThrusterState ∨ data = busCmdBarState ∨ data = busCmdBoardstatus ∨ data = busCmdTemp ∨ data = busCmdReadOvr then 2
  else if data = busCmdReadImotor then 17
  else if data = busCmdReadAstatus then 11
  else 0

/-- The cells that `processData` uses. -/
def processUses (data : Byte) (s : Shared) : List Cell :=
  match s.busState with
  | .topLevel => firstCells .txBuf (replyLength data) ++ if data = busCmdReadImotor then firstCells .iMotor 8 else []
  | .readCmd => [(.cfgRegs, data.toNat), (.txBuf, 0), (.txBuf, 1)]
  | .writeCmd => if s.nParam + 1 = 2 then [(.cfgRegs, (if s.nParam = 0 then data else s.p1).toNat)] else []
  | .motrspeeds => [(.mSpeeds, s.nParam)]
  | .setspeedU1 | .setspeedU2 | .setBarmode | .setBars => []

/-- The cells that a step of the main loop uses. The sensors are stored in one column of `iADCVal`, and
    the averages are over all columns. -/
def mainUses (b : Board) : Point → List Cell
  | .startUp => firstCells .mSpeeds 6 ++ firstCells .cfgRegs 16
  | .measure =>
    firstCells .iADCs 11 ++ firstCells .iADCVal 11 ++ [(.history, b.writeIndex)] ++ firstCells .history 16 ++
      firstCells .iMotor 8 ++ [(.cfgRegs, 1)]
  | .sweep i => [(.cfgRegs, 0), (.mSpeeds, i), (.cfgRegs, 1), (.iMotor, i)]
  | _ => []

/-- The cells that the board uses when something happens. `txPtr` is a byte. -/
def uses (b : Board) : Event → List Cell
  | .write data => processUses data b.shared
  | .read => [(.txBuf, b.shared.txPtr % 256)]
  | .killSwitch _ => []
  | .main _ => mainUses b b.point

/-! ### No other cells are used -/

/-- The shared variables with the value `v` in a cell of the registers, the speeds or the buffer. -/
def Shared.put (v : Byte) (c : Cell) (s : Shared) : Shared :=
  { s with
    cfgRegs := fun i => if c = (.cfgRegs, i) then v else s.cfgRegs i
    mSpeeds := fun i => if c = (.mSpeeds, i) then v else s.mSpeeds i
    txBuf := fun i => if c = (.txBuf, i) then v else s.txBuf i }

def Board.put (v : Byte) (c : Cell) (b : Board) : Board := { b with shared := b.shared.put v c }

section
variable {v : Byte} {c : Cell} {s : Shared}

theorem mem_firstCells {a : Cells} {count : ℕ} : c ∈ firstCells a count ↔ c.1 = a ∧ c.2 < count := by
  obtain ⟨b, i⟩ := c
  simp only [firstCells, List.mem_map, List.mem_range, Prod.mk.injEq]
  constructor
  · rintro ⟨j, low, rfl, rfl⟩
    exact ⟨rfl, low⟩
  · rintro ⟨rfl, low⟩
    exact ⟨i, low, rfl, rfl⟩

/-- A cell that is not used keeps what it has. -/
theorem put_update {a : Cells} {i : ℕ} (unused : c ≠ (a, i)) (values : ℕ → Byte) (data : Byte) :
    Function.update (fun j => if c = (a, j) then v else values j) i data =
      fun j => if c = (a, j) then v else Function.update values i data j := by
  funext j
  by_cases here : j = i
  · subst here
    simp [unused]
  · simp [here]

theorem reply_put {bytes : List Byte} {count : ℕ} (unused : c ∉ firstCells .txBuf count) (length : bytes.length ≤ count) :
    reply bytes (s.put v c) = (reply bytes s).put v c := by
  have same : (fun i => (bytes[i]?).getD (if c = (.txBuf, i) then v else s.txBuf i)) =
      fun i => if c = (.txBuf, i) then v else (bytes[i]?).getD (s.txBuf i) := by
    funext i
    by_cases here : c = (.txBuf, i)
    · have behind : bytes.length ≤ i := by
        by_contra low
        exact unused (mem_firstCells.mpr ⟨by rw [here], by rw [here]; omega⟩)
      simp [here, List.getElem?_eq_none behind]
    · simp [here]
  unfold reply
  rw [Shared.put, same]
  rfl

/-- A choice that does not depend on the cell. -/
theorem put_ite {p q : Prop} [Decidable p] [Decidable q] {x x' y y' : Shared} (same : p ↔ q) (yes : q → x = x'.put v c)
    (no : ¬ q → y = y'.put v c) : (if p then x else y) = (if q then x' else y').put v c := by
  by_cases holds : q
  · rw [if_pos holds, if_pos (same.mpr holds), yes holds]
  · rw [if_neg holds, if_neg (mt same.mp holds), no holds]

theorem checkMotors_put (ms : List Motor) (s : Shared) : checkMotors ms (s.put v c) = (checkMotors ms s).put v c := by
  induction ms generalizing s with
  | nil => rfl
  | cons m rest ih =>
    rw [checkMotors, checkMotors, ← ih]
    congr 1
    exact put_ite Iff.rfl (fun _ => rfl) fun _ => rfl

theorem setBarMode_put (data : Byte) (s : Shared) : setBarMode data (s.put v c) = (setBarMode data s).put v c := by
  have mode : (s.put v c).barMode = s.barMode := rfl
  unfold setBarMode
  rw [mode]
  split_ifs <;> rfl

theorem updateBars_put (s : Shared) : updateBars (s.put v c) = (updateBars s).put v c :=
  put_ite Iff.rfl (fun _ => rfl) fun _ => put_ite Iff.rfl (fun _ => rfl) fun _ => put_ite Iff.rfl (fun _ => rfl) fun _ =>
    put_ite Iff.rfl (fun _ => rfl) fun _ => rfl

theorem otherCmd_put {data : Byte} (unused : c ∉ firstCells .txBuf (replyLength data)) (s : Shared) :
    otherCmd data (s.put v c) = (otherCmd data s).put v c := by
  have stores {bytes : List Byte} (cmd : Byte) (same : data = cmd) (length : replyLength cmd = bytes.length) :
      reply bytes (s.put v c) = (reply bytes s).put v c := by
    refine reply_put unused (Nat.le_of_eq ?_)
    rw [same, length]
  unfold otherCmd
  iterate 2 refine put_ite Iff.rfl (fun same => stores _ same rfl) fun _ => ?_
  iterate 9 refine put_ite Iff.rfl (fun _ => rfl) fun _ => ?_
  iterate 7 refine put_ite Iff.rfl (fun same => stores _ same rfl) fun _ => ?_
  cases barCmds.find? fun cmd => decide (cmd.1 = data) with
  | none => rfl
  | some cmd => rfl

theorem motorOff_put (m : Motor) (s : Shared) : motorOff m (s.put v c) = (motorOff m s).put v c := by
  have cleared : checkLed { s.put v c with motr := Function.update s.motr m false, ovrReg := s.ovrReg &&& ~~~m.mask } =
      (checkLed { s with motr := Function.update s.motr m false, ovrReg := s.ovrReg &&& ~~~m.mask }).put v c := rfl
  unfold motorOff checkOvrReg
  rw [← checkMotors_put, ← cleared]
  rfl

theorem motorOn_put (m : Motor) (s : Shared) : motorOn m (s.put v c) = (motorOn m s).put v c :=
  put_ite Iff.rfl (fun _ => rfl) fun _ => rfl

theorem topLevelCmd_put {data : Byte} (unused : c ∉ firstCells .txBuf (replyLength data)) (s : Shared) :
    topLevelCmd data (s.put v c) = (topLevelCmd data s).put v c := by
  unfold topLevelCmd
  cases motors.find? fun m => decide (m.offCmd = data) with
  | some m => exact motorOff_put m s
  | none =>
    cases motors.find? fun m => decide (m.onCmd = data) with
    | some m => exact motorOn_put m s
    | none => exact otherCmd_put unused s

theorem paramByte_put {data : Byte} (param : s.busState ≠ .topLevel) (unused : c ∉ processUses data s) :
    paramByte data (s.put v c) = (paramByte data s).put v c := by
  have state : (s.put v c).busState = s.busState := rfl
  have params : (s.put v c).nParam = s.nParam := rfl
  have param1 : (s.put v c).p1 = s.p1 := rfl
  unfold paramByte
  unfold processUses at unused
  rw [state, params, param1]
  cases busState : s.busState with
  | topLevel => exact absurd busState param
  | setspeedU1 | setspeedU2 | setBars => rfl
  | setBarmode =>
    dsimp only
    rw [setBarMode_put]
    rfl
  | readCmd =>
    rw [busState] at unused
    simp only [List.mem_cons, List.not_mem_nil, or_false, not_or] at unused
    have value : (s.put v c).cfgRegs data.toNat = s.cfgRegs data.toNat := if_neg unused.1
    have others : c ∉ firstCells .txBuf 2 := by
      simpa [firstCells, List.range_succ] using unused.2
    dsimp only
    rw [value]
    exact reply_put (s := { s with nParam := 0, busState := .topLevel }) others (Nat.le_refl 2)
  | writeCmd =>
    rw [busState] at unused
    dsimp only at unused ⊢
    refine put_ite Iff.rfl (fun last => ?_) fun _ => rfl
    rw [if_pos last, List.mem_singleton] at unused
    have stored : Function.update (s.put v c).cfgRegs _ data = _ := put_update unused s.cfgRegs data
    rw [stored]
    rfl
  | motrspeeds =>
    rw [busState, List.mem_singleton] at unused
    have stored : Function.update (s.put v c).mSpeeds s.nParam data = _ := put_update unused s.mSpeeds data
    dsimp only
    rw [stored]
    exact put_ite Iff.rfl (fun _ => rfl) fun _ => rfl

/-- A byte from the master. -/
theorem processData_put {data : Byte} (unused : c ∉ processUses data s) :
    processData data (s.put v c) = (processData data s).put v c := by
  unfold processData
  refine put_ite Iff.rfl (fun top => ?_) fun param => ?_
  · have top : s.busState = .topLevel := top
    rw [processUses, top, List.mem_append, not_or] at unused
    exact topLevelCmd_put unused.1 { s with txPtr := 0 }
  · exact paramByte_put (s := { s with txPtr := 0 }) param unused

/-! ### The main loop -/

theorem startUp_put (unused : c ∉ firstCells .mSpeeds 6 ++ firstCells .cfgRegs 16) (r : Readings) (b : Board) :
    mainAt r (b.put v c) .startUp = (mainAt r b .startUp).put v c := by
  rw [List.mem_append, not_or, mem_firstCells, mem_firstCells] at unused
  have speeds : (fun i => if i < 6 then 0#8 else if c = (.mSpeeds, i) then v else b.shared.mSpeeds i) =
      fun i => if c = (.mSpeeds, i) then v else if i < 6 then 0#8 else b.shared.mSpeeds i := by
    funext i
    by_cases here : c = (.mSpeeds, i)
    · have behind : ¬ i < 6 := fun low => unused.1 ⟨by rw [here], by rw [here]; exact low⟩
      simp [here, behind]
    · simp [here]
  have regs : (fun i => if i = 1 then 0xFF#8 else if i < 16 then 0#8 else if c = (.cfgRegs, i) then v else b.shared.cfgRegs i) =
      fun i => if c = (.cfgRegs, i) then v else if i = 1 then 0xFF#8 else if i < 16 then 0#8 else b.shared.cfgRegs i := by
    funext i
    by_cases here : c = (.cfgRegs, i)
    · have behind : ¬ i < 16 := fun low => unused.2 ⟨by rw [here], by rw [here]; exact low⟩
      have other : i ≠ 1 := by omega
      simp [here, behind, other]
    · simp [here]
  unfold mainAt Board.put Shared.put
  dsimp only
  rw [speeds, regs]

theorem sweepMotor_put {i : ℕ} {b : Board} (unused : c ∉ mainUses b (.sweep i)) :
    sweepMotor i (b.put v c) = (sweepMotor i b).put v c := by
  simp only [mainUses, List.mem_cons, List.not_mem_nil, or_false, not_or] at unused
  obtain ⟨first, speed, second, -⟩ := unused
  have limit : maxCurrent (b.put v c).shared i = maxCurrent b.shared i := by
    simp [maxCurrent, Board.put, Shared.put, first, speed, second]
  have current : (b.put v c).shared.iMotor = b.shared.iMotor := rfl
  have filter : (b.put v c).ovrTmp = b.ovrTmp := rfl
  unfold sweepMotor
  rw [limit, current, filter]
  split_ifs <;> rfl

theorem takeTemperature_put (rx : Byte) (b : Board) : takeTemperature rx (b.put v c) = (takeTemperature rx b).put v c := by
  have errors : (b.put v c).i2cErrCount = b.i2cErrCount := rfl
  unfold takeTemperature
  rw [errors]
  split_ifs <;> rfl

theorem measure_put {b : Board} (unused : c ∉ mainUses b .measure) (r : Readings) :
    mainAt r (b.put v c) .measure = (mainAt r b .measure).put v c := by
  have other : c ≠ (.cfgRegs, 1) := fun here => unused (by simp [mainUses, here])
  have bars : { b.put v c with shared := updateBars (b.shared.put v c) } =
      ({ b with shared := updateBars b.shared } : Board).put v c := by
    rw [updateBars_put]
    rfl
  have taken : takeReadings r (takeTemperature r.rx { b.put v c with shared := updateBars (b.shared.put v c) }) =
      (takeReadings r (takeTemperature r.rx { b with shared := updateBars b.shared })).put v c := by
    rw [bars, takeTemperature_put]
    rfl
  unfold mainAt
  dsimp only
  rw [show (b.put v c).shared = b.shared.put v c from rfl, taken]
  generalize takeReadings r (takeTemperature r.rx { b with shared := updateBars b.shared }) = t
  have enabled : (t.put v c).shared.cfgRegs 1 = t.shared.cfgRegs 1 := if_neg other
  rw [enabled]
  rfl

/-- The step of the main loop. -/
theorem mainStep_put {b : Board} (unused : c ∉ mainUses b b.point) (r : Readings) :
    mainStep r (b.put v c) = (mainStep r b).put v c := by
  have point : (b.put v c).point = b.point := rfl
  unfold mainStep
  rw [point]
  cases here : b.point with
  | startUp => exact startUp_put (by rwa [here] at unused) r b
  | sweep i => exact sweepMotor_put (by rwa [here] at unused)
  | measure => exact measure_put (by rwa [here] at unused) r
  | killing left => cases left <;> rfl
  | checking i left =>
    cases left with
    | nil => rfl
    | cons m left =>
      have checked := checkMotors_put (v := v) (c := c) [m] b.shared
      unfold mainAt
      dsimp only
      rw [show (b.put v c).shared = b.shared.put v c from rfl, checked]
      rfl
  | _ => rfl

/-- Whatever happens, a cell that is not among the cells used is neither read nor changed. -/
theorem next_put {b : Board} {e : Event} (unused : c ∉ uses b e) : next (b.put v c) e = (next b e).put v c := by
  cases e with
  | write data =>
    have same : processData data (b.put v c).shared = _ := processData_put unused
    unfold next
    dsimp only
    rw [same]
    rfl
  | read => rfl
  | killSwitch on => rfl
  | main r => exact mainStep_put unused r

end

/-! ### What the steps leave behind -/

/-- The motor whose current is being looked at. -/
def Point.channel : Point → Option ℕ
  | .sweep i | .raiseRead i | .raiseWrite i _ | .check i | .checking i _ => some i
  | .startUp | .loop | .killing _ | .killRead | .killWrite _ | .measure => none

/-- The counters that index arrays are in their ranges. -/
structure Placed (b : Board) : Prop where
  speeds : b.shared.busState = .motrspeeds → b.shared.nParam < 6
  history : b.writeIndex < 16
  channel : ∀ i ∈ b.point.channel, i < 6 ∨ i = 7

theorem placed_initial (memory : ℕ → Byte) (killSw : Bool) : Placed (initial memory killSw) :=
  ⟨nofun, Nat.zero_lt_succ _, nofun⟩

/-- After the top level no parameter has been taken yet. -/
def Fresh (s : Shared) : Prop := s.txPtr = 0 ∧ (s.busState = .topLevel ∨ s.nParam = 0)

section
variable {s t : Shared}

theorem Fresh.ite {p : Prop} [Decidable p] (yes : Fresh s) (no : Fresh t) : Fresh (if p then s else t) := by
  by_cases holds : p
  · rwa [if_pos holds]
  · rwa [if_neg holds]

theorem checkMotors_fresh (ms : List Motor) {s : Shared} (fresh : Fresh s) : Fresh (checkMotors ms s) := by
  induction ms generalizing s with
  | nil => exact fresh
  | cons m rest ih => exact ih (Fresh.ite fresh fresh)

theorem otherCmd_fresh (data : Byte) {s : Shared} (fresh : Fresh s) : Fresh (otherCmd data s) := by
  have opened (state : BusState) : Fresh { s with busState := state, nParam := 0 } := ⟨fresh.1, .inr rfl⟩
  unfold otherCmd
  iterate 2 refine .ite fresh ?_
  iterate 7 refine .ite (opened _) ?_
  iterate 9 refine .ite fresh ?_
  cases barCmds.find? fun cmd => decide (cmd.1 = data) with
  | none => exact fresh
  | some cmd => exact fresh

theorem topLevelCmd_fresh (data : Byte) {s : Shared} (fresh : Fresh s) : Fresh (topLevelCmd data s) := by
  unfold topLevelCmd
  cases motors.find? fun m => decide (m.offCmd = data) with
  | some m => exact checkMotors_fresh motors fresh
  | none =>
    cases motors.find? fun m => decide (m.onCmd = data) with
    | some m => exact Fresh.ite fresh fresh
    | none => exact otherCmd_fresh data fresh

theorem setBarMode_txPtr (data : Byte) (s : Shared) : (setBarMode data s).txPtr = s.txPtr := by
  unfold setBarMode
  split_ifs <;> rfl

/-- A byte has reset the transmit pointer, and a speed to come is one of the six. -/
def Parsed (s : Shared) : Prop := s.txPtr = 0 ∧ (s.busState = .motrspeeds → s.nParam < 6)

theorem Parsed.ite {p : Prop} [Decidable p] (yes : p → Parsed s) (no : ¬ p → Parsed t) : Parsed (if p then s else t) := by
  by_cases holds : p
  · rw [if_pos holds]
    exact yes holds
  · rw [if_neg holds]
    exact no holds

theorem Fresh.parsed (fresh : Fresh s) : Parsed s := by
  obtain ⟨reset, top | zero⟩ := fresh
  · exact ⟨reset, fun state => absurd (top.symm.trans state) (by decide)⟩
  · exact ⟨reset, fun _ => by omega⟩

theorem processData_parsed (data : Byte) {s : Shared} (speeds : s.busState = .motrspeeds → s.nParam < 6) :
    Parsed (processData data s) := by
  refine Parsed.ite (fun top => (topLevelCmd_fresh data ⟨rfl, .inl top⟩).parsed) fun param => ?_
  have other {t : Shared} (reset : t.txPtr = 0) (state : t.busState ≠ .motrspeeds) : Parsed t := ⟨reset, fun same => absurd same state⟩
  unfold paramByte
  dsimp only
  cases busState : s.busState with
  | topLevel => exact absurd busState param
  | setspeedU1 | setspeedU2 | readCmd | setBars => exact other rfl nofun
  | setBarmode => exact other (setBarMode_txPtr data _) nofun
  | writeCmd => exact Parsed.ite (fun _ => other rfl nofun) fun _ => other rfl nofun
  | motrspeeds =>
    have low := speeds busState
    exact Parsed.ite (fun _ => other rfl nofun) fun last => ⟨rfl, fun _ => by dsimp only; omega⟩

end

/-- The main loop leaves the parser of the bus alone. -/
def SameBus (s t : Shared) : Prop := t.busState = s.busState ∧ t.nParam = s.nParam ∧ t.txPtr = s.txPtr

theorem SameBus.ite {p : Prop} [Decidable p] {s t u : Shared} (yes : SameBus s t) (no : SameBus s u) :
    SameBus s (if p then t else u) := by
  by_cases holds : p
  · rwa [if_pos holds]
  · rwa [if_neg holds]

theorem updateBars_bus (s : Shared) : SameBus s (updateBars s) := by
  have same : SameBus s s := ⟨rfl, rfl, rfl⟩
  exact .ite same (.ite same (.ite same (.ite same same)))

theorem measure_bus (r : Readings) (b : Board) : SameBus b.shared (mainAt r b .measure).shared := by
  have taken (b : Board) : SameBus b.shared (takeReadings r (takeTemperature r.rx b)).shared := by
    unfold takeTemperature
    split_ifs <;> exact ⟨rfl, rfl, rfl⟩
  have bars := updateBars_bus b.shared
  have later := taken { b with shared := updateBars b.shared }
  exact ⟨later.1.trans bars.1, later.2.1.trans bars.2.1, later.2.2.trans bars.2.2⟩

theorem sweepMotor_cases (i : ℕ) (b : Board) : (sweepMotor i b).shared = b.shared ∧ (sweepMotor i b).writeIndex = b.writeIndex ∧
    ((sweepMotor i b).point = .raiseRead i ∨ (sweepMotor i b).point = .following i) := by
  unfold sweepMotor
  split_ifs
  · exact ⟨rfl, rfl, .inl rfl⟩
  · exact ⟨rfl, rfl, .inr rfl⟩
  · exact ⟨rfl, rfl, .inr rfl⟩

theorem mainStep_bus (r : Readings) (b : Board) : SameBus b.shared (mainStep r b).shared := by
  have same : SameBus b.shared b.shared := ⟨rfl, rfl, rfl⟩
  unfold mainStep
  cases b.point with
  | measure => exact measure_bus r b
  | sweep i =>
    have kept : (mainAt r b (.sweep i)).shared = b.shared := (sweepMotor_cases i b).1
    rw [kept]
    exact same
  | killing left => cases left <;> exact same
  | checking i left =>
    cases left with
    | nil => exact same
    | cons m left => exact SameBus.ite same same
  | _ => exact same

theorem following_channel {i : ℕ} (_low : i < 6 ∨ i = 7) : ∀ j ∈ (Point.following i).channel, j < 6 ∨ j = 7 := by
  unfold Point.following
  split_ifs with last inside
  · rintro j ⟨⟩
    exact .inr rfl
  · rintro j ⟨⟩
    omega
  · nofun

theorem measure_history (r : Readings) (b : Board) : (mainAt r b .measure).writeIndex < 16 := by
  have index : (mainAt r b .measure).writeIndex = if b.writeIndex + 1 ≥ 16 then 0 else b.writeIndex + 1 := by
    unfold mainAt takeReadings takeTemperature
    split_ifs <;> rfl
  rw [index]
  split_ifs <;> omega

theorem mainStep_placed (r : Readings) {b : Board} (placed : Placed b) : Placed (mainStep r b) := by
  have stays {n : ℕ} (low : n < 6 ∨ n = 7) : ∀ j ∈ some n, j < 6 ∨ j = 7 := by
    rintro j ⟨⟩
    exact low
  have moved : (mainStep r b).writeIndex < 16 ∧ ∀ i ∈ (mainStep r b).point.channel, i < 6 ∨ i = 7 := by
    have history := placed.history
    have channel := placed.channel
    unfold mainStep
    cases point : b.point with
    | startUp | killRead | killWrite read => exact ⟨history, nofun⟩
    | loop =>
      refine ⟨history, ?_⟩
      unfold mainAt
      dsimp only
      split_ifs <;> nofun
    | killing left => cases left <;> exact ⟨history, nofun⟩
    | measure =>
      refine ⟨measure_history r b, ?_⟩
      unfold mainAt
      dsimp only
      split_ifs
      · exact stays (.inl (by decide))
      · nofun
    | sweep i =>
      have low := channel i (by rw [point]; rfl)
      obtain ⟨-, index, raise | next⟩ := sweepMotor_cases i b
      · exact ⟨index ▸ history, fun j found => stays low j (by rwa [mainAt, raise] at found)⟩
      · exact ⟨index ▸ history, fun j found => following_channel low j (by rwa [mainAt, next] at found)⟩
    | raiseRead i | raiseWrite i read | check i =>
      have low := channel i (by rw [point]; rfl)
      exact ⟨history, stays low⟩
    | checking i left =>
      have low := channel i (by rw [point]; rfl)
      cases left with
      | nil => exact ⟨history, following_channel low⟩
      | cons m left => exact ⟨history, stays low⟩
  obtain ⟨busState, nParam, -⟩ := mainStep_bus r b
  refine ⟨fun state => ?_, moved.1, moved.2⟩
  rw [nParam]
  exact placed.speeds (busState.symm.trans state)

theorem next_placed {b : Board} (e : Event) (placed : Placed b) : Placed (next b e) := by
  cases e with
  | write data => exact ⟨(processData_parsed data placed.speeds).2, placed.history, placed.channel⟩
  | read => exact ⟨placed.speeds, placed.history, placed.channel⟩
  | killSwitch on => exact ⟨placed.speeds, placed.history, placed.channel⟩
  | main r => exact mainStep_placed r placed

theorem after_placed {b : Board} (placed : Placed b) (events : List Event) : Placed (after next b events) := by
  induction events generalizing b with
  | nil => exact placed
  | cons e rest ih => exact ih (next_placed e placed)

/-! ### When all indices are inside -/

/-- How many bytes the master has read since it wrote one. -/
def readsSince : List Event → ℕ
  | [] => 0
  | .write _ :: _ => 0
  | .read :: earlier => readsSince earlier + 1
  | .killSwitch _ :: earlier | .main _ :: earlier => readsSince earlier

theorem txPtr_after (start : Board) (first : start.shared.txPtr = 0) (placed : Placed start) (past : List Event) :
    (after next start past).shared.txPtr = readsSince past.reverse := by
  induction past using List.reverseRecOn with
  | nil => exact first
  | append_singleton past e ih =>
    have before := after_placed placed past
    rw [after_append, List.reverse_append]
    cases e with
    | write data => exact (processData_parsed data before.speeds).1
    | read => exact congrArg (· + 1) ih
    | killSwitch on => exact ih
    | main r => exact (mainStep_bus r _).2.2.trans ih

/-- The register that the master names is one of the sixteen, it reads no more than sixty bytes after one that
    it has written (counted in a byte), and the sweep does not come to the seventh motor. -/
def Heeded (past : List Event) (b : Board) : Event → Prop
  | .write data =>
    (b.shared.busState = .readCmd → data.toNat < 16) ∧ (b.shared.busState = .writeCmd → b.shared.nParam = 1 → b.shared.p1.toNat < 16)
  | .read => readsSince past.reverse % 256 < 60
  | .killSwitch _ => True
  | .main _ => b.point ≠ .sweep 7

theorem firstCells_inside {a : Cells} {count : ℕ} (low : count ≤ a.size) : ∀ c ∈ firstCells a count, c.Inside := by
  rintro ⟨b, i⟩ found
  obtain ⟨rfl, inside⟩ := mem_firstCells.mp found
  exact Nat.lt_of_lt_of_le inside low

theorem replyLength_le (data : Byte) : replyLength data ≤ 60 := by
  unfold replyLength
  split_ifs <;> decide

theorem processUses_inside (data : Byte) (past : List Event) {b : Board} (placed : Placed b) :
    (∀ c ∈ processUses data b.shared, c.Inside) ↔ Heeded past b (.write data) := by
  have one (a : Cells) (i : ℕ) : (∀ c ∈ [((a, i) : Cell)], Cell.Inside c) ↔ i < a.size := by
    rw [List.forall_mem_singleton]
    exact Iff.rfl
  unfold processUses Heeded
  cases busState : b.shared.busState with
  | topLevel =>
    refine ⟨fun _ => ⟨nofun, nofun⟩, fun _ c found => ?_⟩
    rcases List.mem_append.mp found with stored | current
    · exact firstCells_inside (replyLength_le data) c stored
    · split_ifs at current with motors
      · exact firstCells_inside (Nat.le_refl 8) c current
      · nomatch current
  | readCmd =>
    simp only [List.forall_mem_cons, Cell.Inside, Cells.size]
    simp
  | writeCmd =>
    dsimp only
    split_ifs with last first
    · omega
    · have second : b.shared.nParam = 1 := by omega
      rw [one]
      simp [second, Cells.size]
    · have early : b.shared.nParam ≠ 1 := by omega
      simp [early]
  | motrspeeds =>
    have low := placed.speeds busState
    dsimp only
    rw [one]
    exact ⟨fun _ => ⟨nofun, nofun⟩, fun _ => low⟩
  | setspeedU1 | setspeedU2 | setBarmode | setBars => simp

theorem mainUses_inside (r : Readings) (past : List Event) {b : Board} (placed : Placed b) :
    (∀ c ∈ mainUses b b.point, c.Inside) ↔ Heeded past b (.main r) := by
  unfold Heeded
  cases point : b.point with
  | startUp =>
    refine ⟨fun _ => nofun, fun _ => List.forall_mem_append.mpr ⟨?_, ?_⟩⟩
    · exact firstCells_inside (Nat.le_refl 6)
    · exact firstCells_inside (Nat.le_refl 16)
  | measure =>
    have whole {a : Cells} : ∀ c ∈ firstCells a a.size, c.Inside := firstCells_inside (Nat.le_refl _)
    refine ⟨fun _ => nofun, fun _ => ?_⟩
    unfold mainUses
    simp only [List.forall_mem_append, List.forall_mem_singleton]
    exact ⟨⟨⟨⟨⟨whole, whole⟩, placed.history⟩, whole⟩, whole⟩, Nat.lt_of_lt_of_le (by decide) (Nat.le_refl 16)⟩
  | sweep i =>
    have low := placed.channel i (by rw [point]; rfl)
    simp only [mainUses, List.forall_mem_cons, Cell.Inside, Cells.size, ne_eq, Point.sweep.injEq]
    constructor
    · rintro ⟨-, speed, -⟩ rfl
      omega
    · intro other
      have speed : i < 6 := by omega
      exact ⟨by decide, speed, by decide, by omega, nofun⟩
  | loop | killing left | killRead | killWrite read | raiseRead i | raiseWrite i read | check i | checking i left =>
    simp [mainUses]

/-- In every run, all the indices that the board uses are inside their arrays if and only if whatever
    happens is heeded. -/
theorem arrays_inside (memory : ℕ → Byte) (killSw : Bool) (events : List Event) :
    (∀ past e later, events = past ++ e :: later → ∀ c ∈ uses (after next (initial memory killSw) past) e, c.Inside) ↔
      ∀ past e later, events = past ++ e :: later → Heeded past (after next (initial memory killSw) past) e := by
  have placed := placed_initial memory killSw
  have same (past : List Event) (e : Event) :
      (∀ c ∈ uses (after next (initial memory killSw) past) e, c.Inside) ↔
        Heeded past (after next (initial memory killSw) past) e := by
    have now := after_placed placed past
    cases e with
    | write data => exact processUses_inside data past now
    | read =>
      rw [uses, List.forall_mem_singleton, txPtr_after _ rfl placed past]
      exact Iff.rfl
    | killSwitch on => simp [uses, Heeded]
    | main r => exact mainUses_inside r past now
  exact forall_congr' fun past => forall_congr' fun e => forall_congr' fun later => imp_congr_right fun _ => same past e

/-- Sensors that give nothing. -/
def noReadings : Readings := ⟨255#8, fun _ => 0#16, 0#16, 0#16, 0#16, 0#16, 0#16⟩

/-- The master turns the overcurrent protection on, and the main loop comes to the end of its sixteenth round. -/
def protect : List Event :=
  [.main noReadings, .write busCmdWriteReg, .write 1#8, .write 0#8] ++ List.replicate (32 + 6) (.main noReadings)

/-- The register number 16 is read, the buffer is read behind its end, and so are the speeds when the
    sweep comes to the seventh motor. -/
theorem arrays_left :
    (.cfgRegs, 16) ∈ uses (after next (initial (fun _ => 0#8) true) [.write busCmdReadReg]) (.write 16#8) ∧
    (.txBuf, 60) ∈ uses (after next (initial (fun _ => 0#8) true) (List.replicate 60 .read)) .read ∧
    (.mSpeeds, 7) ∈ uses (after next (initial (fun _ => 0#8) true) protect) (.main noReadings) ∧
    ¬ Cell.Inside (.cfgRegs, 16) ∧ ¬ Cell.Inside (.txBuf, 60) ∧ ¬ Cell.Inside (.mSpeeds, 7) := by
  decide +kernel

end Tortuga.Distro
