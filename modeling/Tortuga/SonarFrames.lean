import Mathlib.Data.List.DropRight
import Mathlib.Tactic.Linarith
import Tortuga.FrameRules
import Tortuga.SonarReports

/-!
When a report comes to the host as it was sent: the search of the sonar board for a header, the
fields in their bytes, and the sonar board between master and host.
-/
namespace Tortuga.SonarReports
open Tortuga.Programs Tortuga.BusCodes Tortuga.Blackfin
open Tortuga.Machines (after Each after_nil after_cons after_append after_invariant)
open Tortuga.Master (Mem irqSonar)
open Tortuga.FrameRules (chksum_congr)
open Tortuga.SensorApi (Host Buf bufOf sbOk store)
set_option linter.unusedSimpArgs false

/-! ### The search for a header -/

/-- A byte that is taken for the last of a header. -/
def Starts (count t : Byte) : Prop := t = 0xFF#8 ∧ 6 ≤ (count + 1).toNat

instance (count t : Byte) : Decidable (Starts count t) := inferInstanceAs (Decidable (_ ∧ _))

/-- What the search is for: the bytes since the last header, with the count of the bytes 0xFF in a
    row, which is a byte itself. -/
structure Scan where
  count : Byte
  since : List Byte

def Scan.next (p : Scan) (t : Byte) : Scan where
  count := if t = 0xFF#8 then p.count + 1 else 0
  since := if Starts p.count t then [] else p.since ++ [t]

section
variable {p : Scan} {n : ℕ} {bytes : List Byte}

theorem Scan.next_count_high : (p.next 0xFF#8).count = p.count + 1 := by simp [Scan.next]

theorem Scan.next_count_other {t : Byte} (other : t ≠ 0xFF#8) : (p.next t).count = 0 := if_neg other

theorem Scan.next_since {t : Byte} (quiet : ¬ Starts p.count t) : (p.next t).since = p.since ++ [t] := if_neg quiet

theorem Scan.next_start {t : Byte} (starts : Starts p.count t) : (p.next t).since = [] := if_pos starts

theorem count_replicate (n : ℕ) : (after Scan.next p (List.replicate n 0xFF#8)).count = p.count + BitVec.ofNat 8 n := by
  induction n generalizing p with
  | zero => simp
  | succ n ih =>
    rw [List.replicate_succ, after_cons, ih, Scan.next_count_high]
    apply BitVec.eq_of_toNat_eq
    simp
    omega

/-- The bytes 0xFF at the end of the list. -/
def highs (bytes : List Byte) : ℕ := (bytes.rtakeWhile (· = 0xFF#8)).length

theorem count_highs (bytes : List Byte) : (after Scan.next ⟨0, []⟩ bytes).count = BitVec.ofNat 8 (highs bytes) := by
  induction bytes using List.reverseRecOn with
  | nil => rfl
  | append_singleton bytes t ih =>
    rw [after_append, after_cons, after_nil, highs]
    by_cases high : t = 0xFF#8
    · subst high
      rw [Scan.next_count_high, ih, List.rtakeWhile_concat_pos _ _ _ (by simp)]
      apply BitVec.eq_of_toNat_eq
      simp [highs]
    · rw [Scan.next_count_other high, List.rtakeWhile_concat_neg _ _ _ (by simpa using high)]
      rfl

/-- As long as the count is high, a header has just come. -/
theorem since_of_high (bytes : List Byte) (high : 6 ≤ (after Scan.next ⟨0, []⟩ bytes).count.toNat) :
    (after Scan.next ⟨0, []⟩ bytes).since = [] := by
  induction bytes using List.reverseRecOn with
  | nil => rfl
  | append_singleton bytes t _ =>
    rw [after_append, after_cons, after_nil] at high ⊢
    by_cases same : t = 0xFF#8
    · subst same
      rw [Scan.next_count_high] at high
      exact if_pos ⟨rfl, high⟩
    · rw [Scan.next_count_other same] at high
      exact absurd high (by decide)

/-- Six bytes 0xFF are a header, unless the count comes to its end with them. -/
theorem since_header (room : p.count.toNat < 250) : (after Scan.next p header).since = [] := by
  have five : (after Scan.next p (List.replicate 5 0xFF#8)).count = p.count + 5#8 := count_replicate 5
  have split : header = List.replicate 5 0xFF#8 ++ [0xFF#8] := rfl
  rw [split, after_append, after_cons, after_nil]
  refine Scan.next_start ⟨rfl, ?_⟩
  rw [five, BitVec.toNat_add, BitVec.toNat_add]
  simp
  omega

theorem since_lost (high : 250 ≤ p.count.toNat) (none : p.since = []) :
    ∃ rest, (after Scan.next p header).since = 0xFF#8 :: rest := by
  obtain ⟨count, since⟩ := p
  subst none
  have cases : count = 250#8 ∨ count = 251#8 ∨ count = 252#8 ∨ count = 253#8 ∨ count = 254#8 ∨ count = 255#8 := by
    simp only [← BitVec.toNat_inj]
    have := count.isLt
    simp at high ⊢
    omega
  rcases cases with rfl | rfl | rfl | rfl | rfl | rfl <;> exact ⟨_, rfl⟩

/-- No byte is taken for the last of a header, when up to `n` bytes 0xFF came before. -/
def Quiet (n : ℕ) (bytes : List Byte) : Prop :=
  ∀ p : Scan, p.count.toNat ≤ n → Each Scan.next (fun p t => ¬ Starts p.count t) p bytes

theorem quiet_nil : Quiet n [] := fun _ _ => trivial

theorem quiet_sentinel (quiet : Quiet 0 bytes) : Quiet n (0x00#8 :: bytes) := by
  intro p _
  refine ⟨fun starts => absurd starts.1 (by decide), quiet _ ?_⟩
  rw [Scan.next_count_other (by decide)]
  rfl

theorem quiet_byte {t : Byte} (few : n < 5) (quiet : Quiet (n + 1) bytes) : Quiet n (t :: bytes) := by
  intro p low
  have next : (p.count + 1).toNat ≤ n + 1 := by
    rw [BitVec.toNat_add]
    simp
    omega
  refine ⟨fun starts => ?_, quiet _ ?_⟩
  · have six := starts.2
    omega
  · by_cases high : t = 0xFF#8
    · subst high
      rwa [Scan.next_count_high]
    · rw [Scan.next_count_other high]
      exact Nat.zero_le _

theorem since_quiet (quiet : Each Scan.next (fun p t => ¬ Starts p.count t) p bytes) :
    (after Scan.next p bytes).since = p.since ++ bytes := by
  induction bytes generalizing p with
  | nil => simp
  | cons t rest ih =>
    rw [after_cons, ih quiet.2, Scan.next_since quiet.1, List.append_assoc]
    rfl

/-- Between two sentinel bytes are at most five bytes. -/
theorem quiet_body (legacy : Bool) (r : Report) : Quiet 255 (body legacy r) := by
  cases legacy <;> simp only [body, fields, bytes16, bytes32, List.cons_append, List.nil_append, List.append_assoc,
    Bool.false_eq_true, ↓reduceIte, List.append_nil]
  all_goals
    repeat' first
      | exact quiet_nil
      | apply quiet_sentinel
      | apply quiet_byte (by decide)

end

/-! ### The board -/

/-- The board keeps the first bytes since the last header, and hands them on when it has them all. -/
structure Follows (s : Board) (p : Scan) : Prop where
  mode : s.portalMode = false
  state : s.busState = .topLevel
  count : s.fCount = p.count
  ptr : s.sonarPtr = min p.since.length sonarPacketLen
  stored : ∀ i < s.sonarPtr, p.since[i]? = some (s.sonarRxBuf i)
  copied : sonarPacketLen ≤ p.since.length → ∀ i < sonarPacketLen, s.sonarBuf i = s.sonarRxBuf i

section
variable {s : Board} {p : Scan} {t : Byte}

theorem follows_initial : Follows initial ⟨0, []⟩ where
  mode := rfl
  state := rfl
  count := rfl
  ptr := rfl
  stored := fun _ low => absurd low (Nat.not_lt_zero _)
  copied := fun many => absurd many (by decide)

/-- A byte that is stored is the next of those since the header. -/
theorem Follows.storeByte (follows : Follows s p) :
    Follows (Blackfin.storeByte t s) ⟨p.count, p.since ++ [t]⟩ := by
  obtain ⟨mode, state, count, ptr, stored, copied⟩ := follows
  by_cases room : s.sonarPtr < sonarPacketLen
  · have length : p.since.length = s.sonarPtr := by omega
    have cells (i : ℕ) (low : i < s.sonarPtr + 1) :
        (p.since ++ [t])[i]? = some (Function.update s.sonarRxBuf s.sonarPtr t i) := by
      rcases Nat.lt_succ_iff_lt_or_eq.mp low with before | rfl
      · rw [List.getElem?_append_left (by omega), stored i before, Function.update_of_ne (by omega)]
      · rw [← length, List.getElem?_concat_length, Function.update_self]
    have moved : min (p.since ++ [t]).length sonarPacketLen = s.sonarPtr + 1 := by
      rw [List.length_append, List.length_singleton]
      omega
    simp only [Blackfin.storeByte, room, ↓reduceIte]
    split
    case isTrue => exact ⟨mode, state, count, moved.symm, cells, fun _ i low => if_pos low⟩
    case isFalse short =>
      refine ⟨mode, state, count, moved.symm, cells, fun (many : _ ≤ (p.since ++ [t]).length) => absurd ?_ short⟩
      omega
  · have full : s.sonarPtr = sonarPacketLen := by omega
    have cells (i : ℕ) (low : i < s.sonarPtr) : (p.since ++ [t])[i]? = some (s.sonarRxBuf i) := by
      rw [List.getElem?_append_left (by omega)]
      exact stored i low
    have stays : s.sonarPtr = min (p.since ++ [t]).length sonarPacketLen := by
      rw [List.length_append, List.length_singleton]
      omega
    simp only [Blackfin.storeByte, if_neg room, if_pos full]
    exact ⟨mode, state, count, stays, cells, fun _ i low => if_pos low⟩

theorem Follows.receive (follows : Follows s p) : Follows (Blackfin.receive s t) (p.next t) := by
  have taken : Follows (Blackfin.storeByte t s) ⟨p.count, p.since ++ [t]⟩ := follows.storeByte
  obtain ⟨mode, state, count, ptr, stored, copied⟩ := taken
  have reads : Blackfin.receive s t = countByte t (Blackfin.storeByte t s) := by
    rw [Blackfin.receive, follows.mode]
    rfl
  rw [reads, countByte]
  by_cases high : t = 0xFF#8
  · subst high
    by_cases six : 6 ≤ (p.count + 1).toNat
    · have starts : Starts p.count 0xFF#8 := ⟨rfl, six⟩
      have next : p.next 0xFF#8 = ⟨p.count + 1, []⟩ := by rw [Scan.next, if_pos rfl, if_pos starts]
      rw [next]
      simp only [↓reduceIte, count, six]
      exact ⟨mode, state, rfl, rfl, fun _ low => absurd low (Nat.not_lt_zero _), fun many => absurd many (Nat.not_succ_le_zero 21)⟩
    · have goesOn : ¬ Starts p.count 0xFF#8 := fun starts => six starts.2
      have next : p.next 0xFF#8 = ⟨p.count + 1, p.since ++ [0xFF#8]⟩ := by rw [Scan.next, if_pos rfl, if_neg goesOn]
      rw [next]
      simp only [↓reduceIte, count, six]
      exact ⟨mode, state, rfl, ptr, stored, copied⟩
  · have goesOn : ¬ Starts p.count t := fun starts => high starts.1
    have next : p.next t = ⟨0, p.since ++ [t]⟩ := by rw [Scan.next, if_neg high, if_neg goesOn]
    rw [next]
    simp only [high, ↓reduceIte]
    exact ⟨mode, state, rfl, ptr, stored, copied⟩

theorem Follows.after (follows : Follows s p) (bytes : List Byte) :
    Follows (Machines.after Blackfin.receive s bytes) (Machines.after Scan.next p bytes) := by
  induction bytes generalizing s p with
  | nil => exact follows
  | cons t rest ih => exact ih follows.receive

/-- What the board hands on are the first bytes since the last header. -/
theorem Follows.full (follows : Follows s p) (many : sonarPacketLen ≤ p.since.length) {i : ℕ} (low : i < sonarPacketLen) :
    p.since[i]? = some (s.sonarBuf i) := by
  have ptr : s.sonarPtr = sonarPacketLen := by rw [follows.ptr, Nat.min_eq_right many]
  rw [follows.copied many i low]
  exact follows.stored i (by omega)

end

/-! ### The fields in their bytes -/

section
variable {x : ℚ} {r : Report} {legacy : Bool}

theorem join16_bytes (x : BitVec 16) : join16 ((x >>> 8).setWidth 8) (x.setWidth 8) = x := by
  ext i low
  simp only [join16, BitVec.getElem_or, BitVec.getElem_shiftLeft, BitVec.getElem_setWidth, BitVec.getLsbD_setWidth,
    BitVec.getLsbD_ushiftRight]
  grind

theorem join32_bytes (x : BitVec 32) :
    join32 ((x >>> 24).setWidth 8) ((x >>> 16).setWidth 8) ((x >>> 8).setWidth 8) (x.setWidth 8) = x := by
  ext i low
  simp only [join32, BitVec.getElem_or, BitVec.getElem_shiftLeft, BitVec.getElem_setWidth, BitVec.getLsbD_setWidth,
    BitVec.getLsbD_ushiftRight]
  grind

/-- A bound keeps its place when the fraction is left away. -/
theorem truncate_bounds {n : ℕ} (low : -(n : ℚ) ≤ x) (high : x ≤ n) : -(n : ℤ) ≤ truncate x ∧ truncate x ≤ n := by
  have below : -((n * x.den : ℕ) : ℤ) ≤ x.num := by
    have := (Rat.le_iff _ _).mp low
    simpa using this
  have above : x.num ≤ ((n * x.den : ℕ) : ℤ) := by
    have := (Rat.le_iff _ _).mp high
    simpa using this
  have size : (truncate x).natAbs ≤ n := by
    rw [truncate, Int.natAbs_tdiv]
    exact Nat.div_le_of_le_mul (by rw [Nat.mul_comm, Int.natAbs_natCast]; omega)
  omega

/-- What is left of a component with four decimals, its sign kept. -/
def fourDecimals (x : ℚ) : ℚ := truncate (x * 10000) / 10000

/-- The fields of a report as the host knows them. -/
def delivered (r : Report) : SonarData where
  vectorX := fourDecimals r.vectorX
  vectorY := fourDecimals r.vectorY
  vectorZ := fourDecimals r.vectorZ
  status := r.status
  range := r.range
  timeStampSec := r.timeStamp
  timeStampUSec := r.sampleNo
  pingerID := 0

/-- A component that passes the check fits into a `signed short`. -/
theorem component_fractional (low : -3 / 2 ≤ x) (high : x ≤ 3 / 2) :
    component ((fractional x >>> 8).setWidth 8) ((fractional x).setWidth 8) = fourDecimals x := by
  obtain ⟨below, above⟩ := truncate_bounds (x := x * 10000) (n := 15000) (by norm_num; linarith) (by norm_num; linarith)
  have fits : (fractional x).toInt = truncate (x * 10000) := by
    rw [fractional, BitVec.toInt_ofInt]
    exact Int.bmod_eq_of_le (by omega) (by omega)
  rw [component, join16_bytes, fits, fourDecimals]

theorem sonarData_body {raw : Buf} (inRange : ¬ OutOfRange r)
    (same : ∀ i < sonarPacketLen, (body legacy r)[i]? = some (raw i)) : sonarData raw = delivered r := by
  have cell (i : ℕ) {b : Byte} (found : (body legacy r)[i]? = some b) (low : i < sonarPacketLen) : raw i = b :=
    Option.some_inj.mp ((same i low).symm.trans found)
  simp only [OutOfRange, not_or, gt_iff_lt, not_lt] at inRange
  obtain ⟨highX, lowX, highY, lowY, highZ, lowZ⟩ := inRange
  rw [sonarData, delivered, cell 1 rfl (by decide), cell 2 rfl (by decide), cell 3 rfl (by decide),
    cell 4 rfl (by decide), cell 5 rfl (by decide), cell 7 rfl (by decide), cell 8 rfl (by decide),
    cell 9 rfl (by decide), cell 10 rfl (by decide), cell 12 rfl (by decide), cell 13 rfl (by decide),
    cell 14 rfl (by decide), cell 15 rfl (by decide), cell 17 rfl (by decide), cell 18 rfl (by decide),
    cell 19 rfl (by decide), cell 20 rfl (by decide), component_fractional lowX highX, component_fractional lowY highY,
    component_fractional lowZ highZ, join16_bytes, join32_bytes, join32_bytes]

end

/-! ### The master between the host and the board -/

section
variable (t : Wire) (m : Mem)

@[simp] theorem exec_waitchar (b : Byte) (rest : List Byte) (s : Board) (replies : List Byte) :
    exec serve 1 Master.waitchar ⟨b :: rest, s, replies⟩ = some ((b.toNat : Int), ⟨rest, s, replies⟩) := rfl

@[simp] theorem exec_present : exec serve 1 Master.usbPresent t = some (true, t) := rfl

@[simp] theorem exec_send (i : Byte) :
    exec serve 1 (Master.sendByte i) t = some ((), { t with replies := t.replies ++ [i] }) := rfl

@[simp] theorem exec_write (data : Byte) : exec serve 1 (Master.busWriteByte data irqSonar) t =
    some (0, { t with board := processData data t.board }) := rfl

@[simp] theorem exec_read : exec serve 1 (Master.busReadByte irqSonar) t =
    some (((sendData t.board).1.toNat : Int), { t with board := (sendData t.board).2 }) := rfl

theorem exec_setRx {i : ℕ} (low : i < Master.rxBufSize) (b : Byte) : exec serve 1 (Master.setRx i b m) t =
    some (((), { m with rxBuf := Function.update m.rxBuf i b }), t) := by
  rw [Master.setRx, if_pos low, exec_modify]

/-- The bytes of a block go to `rxBuf` one after the other. -/
theorem exec_readFrom (rxLen : Int) (count ptr : ℕ) (room : ptr + count < Master.rxBufSize)
    (small : t.board.txPtr + count < 256) : exec serve 1 (Master.readFrom irqSonar rxLen ptr count m) t =
      some ((rxLen, { m with rxBuf := Function.update (store m.rxBuf ptr
          ((List.range count).map fun i => t.board.txBuf (t.board.txPtr + i))) (ptr + count) 0 }),
        { t with board := { t.board with txPtr := t.board.txPtr + count } }) := by
  induction count generalizing t m ptr with
  | zero =>
    simp only [Master.readFrom, exec_all_bind, exec_setRx t m (show ptr < Master.rxBufSize by omega), Option.bind_some,
      exec_pure, List.range_zero, List.map_nil, SensorApi.store_nil, Nat.add_zero]
  | succ count ih =>
    have moved : (t.board.txPtr + 1) % 256 = t.board.txPtr + 1 := Nat.mod_eq_of_lt (by omega)
    have positive : ¬ ((t.board.txBuf t.board.txPtr).toNat : Int) < 0 := by omega
    simp only [Master.readFrom, exec_all_bind, exec_lift, exec_read, sendData, Option.bind_some, exec_ite, positive,
      ↓reduceIte, exec_setRx _ m (show ptr < Master.rxBufSize by omega), toByte_toNat, moved]
    rw [ih _ _ (ptr + 1) (by omega) (by simp only; omega)]
    simp only [SensorApi.store_cons, List.range_succ_eq_map, List.map_cons, List.map_map, Nat.add_zero, Function.comp_def,
      Nat.succ_eq_add_one, Nat.add_assoc, Nat.add_comm 1]

theorem exec_sendRx (count first : ℕ) : exec serve 1 (Master.sendRx first count m) t =
    some (((), m), { t with replies := t.replies ++ (List.range' first count).map m.rxBuf }) := by
  induction count generalizing t first with
  | zero => simp [Master.sendRx]
  | succ count ih =>
    simp only [Master.sendRx, Master.rx, exec_all_bind, exec_get, Option.bind_some, exec_pure, exec_lift, exec_send, ih,
      List.range'_succ, List.map_cons, List.append_assoc, List.singleton_append]

end

/-- The block that the board has for the master after the command. -/
theorem sonar_block {s : Board} (state : s.busState = .topLevel) :
    (processData busCmdSonar s).txPtr = 0 ∧ (processData busCmdSonar s).txBuf 0 = 22#8 ∧
      ∀ i < sonarPacketLen, (processData busCmdSonar s).txBuf (i + 1) = s.sonarBuf i := by
  have taken : processData busCmdSonar s = topLevelCmd busCmdSonar { s with txPtr := 0 } := by rw [processData, state]
  rw [taken]
  refine ⟨rfl, rfl, fun i low => ?_⟩
  show (if i + 1 = 0 then 22#8 else if i + 1 ≤ sonarPacketLen then s.sonarBuf (i + 1 - 1) else s.txBuf (i + 1)) = _
  rw [if_neg (Nat.succ_ne_zero i), if_pos (Nat.succ_le_of_lt low)]
  rfl

/-- The first bytes of the buffer of the board. -/
def packetOf (s : Board) : List Byte := (List.range sonarPacketLen).map s.sonarBuf

theorem exec_readDataBlock (t : Wire) (m : Mem) {s : Board} (state : s.busState = .topLevel)
    (asked : t.board = processData busCmdSonar s) : ∃ m' s', (∀ i < sonarPacketLen, m'.rxBuf i = s.sonarBuf i) ∧
      exec serve 1 (Master.readDataBlock irqSonar m) t = some (((sonarPacketLen : Int), m'), { t with board := s' }) := by
  obtain ⟨ptr, length, cells⟩ := sonar_block state
  rw [← asked] at ptr length cells
  have first : ((sendData t.board).1.toNat : Int) = 22 := by
    rw [sendData, ptr, length]
    rfl
  have next : (sendData t.board).2.txPtr = 1 := by
    show (t.board.txPtr + 1) % 256 = 1
    rw [ptr]
  have block := exec_readFrom { t with board := (sendData t.board).2 }
    { m with rxBuf := Function.update m.rxBuf 0 0 } 22 22 0 (by decide) (by simp only [next]; decide)
  have ran : exec serve 1 (Master.readDataBlock irqSonar m) t = exec serve 1 (Master.readFrom irqSonar 22 0 22
      { m with rxBuf := Function.update m.rxBuf 0 0 }) { t with board := (sendData t.board).2 } := by
    simp only [Master.readDataBlock, exec_all_bind, exec_setRx t m (show 0 < Master.rxBufSize by decide), Option.bind_some,
      exec_lift, exec_read, exec_ite, first]
    rfl
  refine ⟨_, _, fun i low => ?_, ran.trans block⟩
  have behind : i ≠ 0 + 22 := by
    intro same
    exact absurd low (by rw [same]; decide)
  have cell := cells i low
  rw [Nat.add_comm] at cell
  simp only [Function.update_of_ne behind, next]
  simp [store, sendData, cell, show i < 22 from low]

/-- The reply of the master: what the board has, with its checksum. -/
theorem exec_sonar {s : Board} (state : s.busState = .topLevel) (m : Mem) : ∃ m' s',
    exec serve 1 (Commands.command m) ⟨[hostCmdSonar, hostCmdSonar], s, []⟩ = some (((), m'),
      ⟨[], s', hostReplySonar :: (packetOf s ++ [chksum s.sonarBuf sonarPacketLen hostReplySonar])⟩) := by
  obtain ⟨m', s', same, read⟩ := exec_readDataBlock ⟨[], processData busCmdSonar s, []⟩
    { m with t1 := (hostCmdSonar.toNat : Int) } state rfl
  have sum : chksum m'.rxBuf sonarPacketLen hostReplySonar = chksum s.sonarBuf sonarPacketLen hostReplySonar :=
    chksum_congr same _
  have sent : (List.range' 0 sonarPacketLen).map m'.rxBuf = packetOf s := by
    rw [← List.range_eq_range']
    exact List.map_congr_left (fun i inside => same i (List.mem_range.mp inside))
  refine ⟨m', s', ?_⟩
  have dispatched : Commands.dispatch hostCmdSonar = Commands.caseSonar := rfl
  simp only [Commands.command, exec_all_bind, exec_lift, exec_waitchar, Option.bind_some, exec_present, ↓reduceIte, toByte_toNat,
    dispatched, Commands.caseSonar, Commands.report, Master.confirmT1, Master.setT1, exec_modify, exec_ite, ne_eq,
    not_true_eq_false, Master.writeOrFail, exec_write, Master.readOrFail, read, Master.sendReply, exec_send, exec_sendRx,
    exec_get, sum, sent]
  rfl

/-- The host has the bytes of the board. -/
theorem exec_getSonarData {s : Board} (state : s.busState = .topLevel) (m : Mem) (sd : SonarData) : ∃ raw l,
    (∀ i < sonarPacketLen, raw i = s.sonarBuf i) ∧
      exec answer 1 (getSonarData (some sd)) ⟨m, s, []⟩ = some ((sbOk, some (sonarData raw)), l) := by
  obtain ⟨m', s', ran⟩ := exec_sonar state m
  have length : (packetOf s).length = 22 := by simp [packetOf]
  have cells (i : ℕ) (low : i < sonarPacketLen) : store (bufOf []) 0 (packetOf s) i = s.sonarBuf i := by
    simp [store, packetOf, show i < 22 from low]
  have first : SensorApi.firstBytes (store (bufOf []) 0 (packetOf s)) 22 = packetOf s :=
    List.map_congr_left (fun i inside => cells i (List.mem_range.mp inside))
  have sum : (packetOf s).foldl (· + ·) 0x0E#8 = chksum s.sonarBuf sonarPacketLen hostReplySonar := by
    rw [chksum_eq, foldl_add]
    exact BitVec.add_comm _ _
  have reply (buf : Buf) (b : Byte) : store buf 0 [b] 0 = b := rfl
  have written : SensorApi.firstBytes (bufOf [hostCmdSonar, hostCmdSonar]) 2 = [hostCmdSonar, hostCmdSonar] := rfl
  have taken : (packetOf s ++ [chksum s.sonarBuf sonarPacketLen hostReplySonar]).take 22 = packetOf s :=
    List.take_left' length
  have left : (packetOf s ++ [chksum s.sonarBuf sonarPacketLen hostReplySonar]).drop 22 =
    [chksum s.sonarBuf sonarPacketLen hostReplySonar] := List.drop_left' length
  have whole : (packetOf s).take 22 = packetOf s := List.take_of_length_le (Nat.le_of_eq length)
  refine ⟨_, ⟨m', s', []⟩, cells, ?_⟩
  simp [getSonarData, SensorApi.writeData, SensorApi.readData, answer, written, ran, reply, taken, left, whole,
    first, sum]

/-! ### From end to end -/

/-- The byte makes the board start over. -/
def FrameStart (s : Board) (t : Byte) : Prop := s.portalMode = false ∧ Starts s.fCount t

/-- The board recognises the frame behind the bytes `before` and stores what follows its header, none
    of which it takes for a header, and the host gets the fields of the report. -/
structure Delivered (before frame : List Byte) (r : Report) (m : Mem) (sd : SonarData) : Prop where
  recognised : (after receive initial (before ++ frame.take header.length)).sonarPtr = 0
  stored : ∀ i < sonarPacketLen,
    (frame.drop header.length)[i]? = some ((after receive initial (before ++ frame)).sonarBuf i)
  noStart : Each receive (fun s t => ¬ FrameStart s t) (after receive initial (before ++ frame.take header.length))
    (frame.drop header.length)
  host : ∃ l, exec answer 1 (getSonarData (some sd)) ⟨m, after receive initial (before ++ frame), []⟩ =
    some ((sbOk, some (delivered r)), l)

section
variable {legacy : Bool} {fd written : ℤ} {r : Report} {before bytes : List Byte}

/-- What `reportPing` writes with success is the frame of a report in range. -/
theorem reportPing_sent (sent : (reportPing legacy fd r written).1 = 0) :
    ¬ OutOfRange r ∧ (reportPing legacy fd r written).2 = packet legacy r := by
  have length : (packet legacy r).length = packetLength legacy := by cases legacy <;> rfl
  unfold reportPing at sent ⊢
  split at sent
  case isTrue => exact absurd sent (by decide)
  case isFalse valid =>
    split at sent
    case isTrue => exact absurd sent (by decide)
    case isFalse inRange =>
      split at sent
      case isFalse => exact absurd sent (show ¬ (-3 : ℤ) = 0 by decide)
      case isTrue whole =>
        rw [if_neg valid, if_neg inRange, whole]
        exact ⟨inRange, List.take_of_length_le (Nat.le_of_eq length)⟩

theorem follows_before (before : List Byte) :
    Follows (after receive initial before) (after Scan.next ⟨0, []⟩ before) := follows_initial.after before

theorem noStart_of_quiet {s : Board} {p : Scan} (follows : Follows s p)
    (quiet : Each Scan.next (fun p t => ¬ Starts p.count t) p bytes) :
    Each receive (fun s t => ¬ FrameStart s t) s bytes := by
  induction bytes generalizing s p with
  | nil => trivial
  | cons t rest ih =>
    refine ⟨fun starts => quiet.1 ?_, ih follows.receive quiet.2⟩
    rw [← follows.count]
    exact starts.2

/-- The bytes since the last header, after the frame. -/
theorem since_packet (legacy : Bool) (r : Report) (before : List Byte) :
    (after Scan.next ⟨0, []⟩ (before ++ packet legacy r)).since =
      (after Scan.next ⟨0, []⟩ (before ++ header)).since ++ body legacy r := by
  have quiet := quiet_body legacy r (after Scan.next ⟨0, []⟩ (before ++ header)) (by omega)
  rw [packet, ← List.append_assoc, after_append, since_quiet quiet]

theorem length_body (legacy : Bool) (r : Report) : sonarPacketLen ≤ (body legacy r).length := by
  cases legacy <;> exact Nat.le_of_ble_eq_true rfl

/-- The frame is behind so few bytes 0xFF, up to the turns of the counter, that its header is seen. -/
theorem delivered_of_few (inRange : ¬ OutOfRange r) (few : highs before % 256 < 250) (m : Mem) (sd : SonarData) :
    Delivered before (packet legacy r) r m sd := by
  have headerSeen : (after Scan.next ⟨0, []⟩ (before ++ header)).since = [] := by
    rw [after_append]
    apply since_header
    rw [count_highs, BitVec.toNat_ofNat]
    exact few
  have since := since_packet legacy r before
  rw [headerSeen, List.nil_append] at since
  have follows := follows_before (before ++ packet legacy r)
  have stored (i : ℕ) (low : i < sonarPacketLen) :
      (body legacy r)[i]? = some ((after receive initial (before ++ packet legacy r)).sonarBuf i) := by
    rw [← since]
    exact follows.full (by rw [since]; exact length_body legacy r) low
  obtain ⟨raw, l, same, read⟩ := exec_getSonarData follows.state m sd
  have decoded : sonarData raw = delivered r :=
    sonarData_body inRange (fun i low => by rw [same i low]; exact stored i low)
  have start := follows_before (before ++ header)
  refine ⟨?_, stored, noStart_of_quiet start (quiet_body legacy r _ (by omega)), l, decoded ▸ read⟩
  show (after receive initial (before ++ header)).sonarPtr = 0
  rw [start.ptr, headerSeen]
  rfl

/-- When the counter comes to its end in the header, what is left of the header is stored first. -/
theorem not_delivered_of_many (many : ¬ highs before % 256 < 250) (m : Mem) (sd : SonarData) :
    ¬ Delivered before (packet legacy r) r m sd := by
  intro arrived
  have count : 250 ≤ (after Scan.next ⟨0, []⟩ before).count.toNat := by
    rw [count_highs, BitVec.toNat_ofNat]
    exact Nat.le_of_not_lt many
  obtain ⟨rest, headerLost⟩ := since_lost count (since_of_high before (by omega))
  have since := since_packet legacy r before
  rw [after_append before header, headerLost] at since
  have follows := follows_before (before ++ packet legacy r)
  have length : sonarPacketLen ≤ (after Scan.next ⟨0, []⟩ (before ++ packet legacy r)).since.length := by
    have := length_body legacy r
    rw [since, List.length_append]
    omega
  have first := follows.full length (i := 0) (by decide)
  rw [since, ← arrived.stored 0 (by decide)] at first
  have clash : some 0xFF#8 = some 0x00#8 := first
  exact absurd clash (by decide)

/-- A ping ahead and to the left, at 100 samples. -/
def ping : Report := ⟨1#8, 3 / 5, -4 / 5, 0, 100#16, 7#32, 8#32, 0#8⟩

/-- Nothing is known yet. -/
def noData : SonarData := ⟨0, 0, 0, 0#8, 0#16, 0#32, 0#32, 0#8⟩

theorem ping_sent : (reportPing true 3 ping 29).1 = 0 := by decide +kernel

end

end Tortuga.SonarReports
