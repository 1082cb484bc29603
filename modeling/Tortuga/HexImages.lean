import Mathlib.Data.List.Nodup
import Mathlib.Tactic.Linarith
import Tortuga.HexFiles

/-!
What the rows of a firmware file stand for: a memory in which each byte is the last one that the records give for its address.
-/
namespace Tortuga.HexImages
open Tortuga.CStrings
open Tortuga.HexFiles

section
variable {State Error : Type} {n : ℕ} {f : State → ℕ → Except Error State} {s : State}

/-- A loop that goes on while a condition holds for the count of its steps. -/
theorem foldlM_range (holds : ℕ → State → Prop) (step : ∀ i < n, ∀ s, holds i s → ∃ s', f s i = .ok s' ∧ holds (i + 1) s')
    (start : holds 0 s) :
    ∃ s', (List.range n).foldlM f s = .ok s' ∧ holds n s' := by
  induction n with
  | zero => exact ⟨s, rfl, start⟩
  | succ n ih =>
    obtain ⟨s', upto, now⟩ := ih fun i before => step i (Nat.lt_succ_of_lt before)
    obtain ⟨s'', last, after⟩ := step n (Nat.lt_succ_self n) s' now
    refine ⟨s'', ?_, after⟩
    rw [List.range_succ, List.foldlM_append, upto]
    change (List.foldlM f s' [n] : Except Error State) = _
    rw [List.foldlM_cons, last]
    rfl

end

/-! ### Rows as a memory -/

section
variable {chip : ChipType} {rows : List MemoryRow} {row index a : ℕ} {mem : ℕ → Option UInt8}

/-- The byte at an address of the file. -/
def peek (rows : List MemoryRow) (a : ℕ) : Option UInt8 :=
  (rows.find? fun mr => mr.address = a / 128 * 64).bind fun mr => mr.buffer[a % 128]?

/-- Rows of code memory, one for an address at most. -/
structure Image (rows : List MemoryRow) : Prop where
  distinct : (rows.map (·.address)).Nodup
  aligned : ∀ mr ∈ rows, mr.address % 64 = 0
  full : ∀ mr ∈ rows, mr.buffer.length = 128
  code : ∀ mr ∈ rows, mr.type = .code
  within : ∀ mr ∈ rows, mr.address < 2 ^ 24

/-- The rows have each byte of a memory, and zeros elsewhere. -/
def Holds (rows : List MemoryRow) (mem : ℕ → Option UInt8) : Prop :=
  ∀ a, (peek rows a = none → mem a = none) ∧ ∀ b, peek rows a = some b → b = (mem a).getD 0

theorem holds_nil : Holds [] fun _ => none := fun _ => ⟨fun _ => rfl, fun _ none => absurd none (Option.some_ne_none _).symm⟩

theorem mask_eq {x : ℕ} (small : x < 2 ^ 28) : x &&& 0xFFFFFC0 = x / 64 * 64 := by
  refine Nat.eq_of_testBit_eq fun i => ?_
  have mask : 0xFFFFFC0 = (2 ^ 22 - 1) * 2 ^ 6 := by norm_num
  rw [Nat.testBit_and, mask, Nat.testBit_mul_two_pow, Nat.testBit_two_pow_sub_one, show (64 : ℕ) = 2 ^ 6 from rfl, Nat.testBit_mul_two_pow,
    Nat.testBit_div_two_pow]
  by_cases low : i < 6
  · simp [Nat.not_le.mpr low]
  · by_cases high : i < 28
    · have shifted : i - 6 < 22 := by omega
      simp [Nat.not_lt.mp low, shifted]
    · have none : x.testBit i = false :=
        Nat.testBit_lt_two_pow (small.trans_le (Nat.pow_le_pow_right (by decide) (Nat.not_lt.mp high)))
      have same : i - 6 + 6 = i := by omega
      simp [none, same]

theorem rowOf_code (inside : a < 4 * chip.programWords.toNat) : rowOf chip a = some ⟨a / 128 * 64, .code, .replicate 128 0⟩ := by
  have bound := chip.programWords.toNat_lt
  have code : a / 2 < 2 * chip.programWords.toNat := by omega
  have small : a / 2 < 2 ^ 28 := by omega
  rw [rowOf, if_pos code, mask_eq small, Nat.div_div_eq_div_mul]

/-- The row of an address of code memory is there afterwards, and the memory is the same. -/
theorem getMemoryRow_code (image : Image rows) (holds : Holds rows mem) (inside : a < 4 * chip.programWords.toNat) :
    ∃ rows', getMemoryRow chip a rows = some (a / 128 * 64, rows') ∧ Image rows' ∧ Holds rows' mem ∧
      a / 128 * 64 ∈ rows'.map (·.address) := by
  rw [getMemoryRow, rowOf_code inside, Option.map_some]
  refine ⟨_, rfl, ?_⟩
  have bound := chip.programWords.toNat_lt
  dsimp only
  split_ifs with there
  · exact ⟨image, holds, there⟩
  · refine ⟨⟨?_, ?_, ?_, ?_, ?_⟩, fun b => ?_, List.mem_cons_self⟩
    · rw [List.map_cons]
      exact List.nodup_cons.mpr ⟨there, image.distinct⟩
    · exact List.forall_mem_cons.mpr ⟨by dsimp only; omega, image.aligned⟩
    · exact List.forall_mem_cons.mpr ⟨List.length_replicate, image.full⟩
    · exact List.forall_mem_cons.mpr ⟨rfl, image.code⟩
    · exact List.forall_mem_cons.mpr ⟨by dsimp only; omega, image.within⟩
    · rw [peek, List.find?_cons]
      by_cases same : a / 128 * 64 = b / 128 * 64
      · -- A new row is all zeros, and the memory has nothing there.
        have empty : peek rows b = none := by
          rw [peek, List.find?_eq_none.mpr fun mr among equal => there ?_]
          · rfl
          · rw [same, ← of_decide_eq_true equal]
            exact List.mem_map_of_mem among
        have nothing := (holds b).1 empty
        simp only [same, decide_true, Option.bind_some, nothing]
        refine ⟨fun _ => trivial, fun byte found => ?_⟩
        rw [List.getElem?_replicate, if_pos (Nat.mod_lt b (by decide))] at found
        exact (Option.some_inj.mp found).symm
      · simp only [same, decide_false]
        exact holds b

/-- A row is changed in one place. -/
theorem store_ok (image : Image rows) (holds : Holds rows mem) (there : row ∈ rows.map (·.address)) (short : index < 128) (byte : UInt8) :
    ∃ rows', store rows row index byte = .ok rows' ∧ Image rows' ∧ row ∈ rows'.map (·.address) ∧
      Holds rows' (Function.update mem (2 * row + index) (some byte)) := by
  obtain ⟨mr, among, rfl⟩ := List.mem_map.mp there
  have fits : index < mr.buffer.length := by rwa [image.full mr among]
  have aligned := image.aligned mr among
  let change (m : MemoryRow) : MemoryRow := if m.address = mr.address then { m with buffer := m.buffer.set index byte } else m
  have address (m : MemoryRow) : (change m).address = m.address := by
    dsimp only [change]
    split_ifs <;> rfl
  have addresses : (rows.map change).map (·.address) = rows.map (·.address) := by
    rw [List.map_map]
    exact List.map_congr_left fun m _ => address m
  refine ⟨rows.map change, if_pos ⟨mr, among, rfl, fits⟩, ⟨?_, ?_, ?_, ?_, ?_⟩, ?_, fun a => ?_⟩
  · rw [addresses]
    exact image.distinct
  · exact List.forall_mem_map.mpr fun m other => by rw [address]; exact image.aligned m other
  · refine List.forall_mem_map.mpr fun m other => ?_
    have length := image.full m other
    dsimp only [change]
    split_ifs
    · rw [List.length_set, length]
    · exact length
  · refine List.forall_mem_map.mpr fun m other => ?_
    have type := image.code m other
    dsimp only [change]
    split_ifs
    · exact type
    · exact type
  · exact List.forall_mem_map.mpr fun m other => by rw [address]; exact image.within m other
  · rw [addresses]
    exact there
  · have found : (rows.map change).find? (fun m => m.address = a / 128 * 64) =
        (rows.find? fun m => m.address = a / 128 * 64).map change := by
      rw [List.find?_map]
      congr 2
      funext m
      rw [Function.comp_apply, address]
    rw [peek, found]
    have before := holds a
    rw [peek] at before
    cases sought : rows.find? fun m => m.address = a / 128 * 64 with
    | none =>
      -- no row has the address, so that it is not the one that is changed
      have other : a ≠ 2 * mr.address + index := by
        rintro rfl
        have start : (2 * mr.address + index) / 128 * 64 = mr.address := by omega
        exact List.find?_eq_none.mp sought mr among (by rw [start]; exact decide_eq_true rfl)
      rw [sought] at before
      rw [Function.update_of_ne other]
      exact before
    | some m =>
      have here : m.address = a / 128 * 64 := by simpa using List.find?_some sought
      have other := List.mem_of_find?_eq_some sought
      have inside : a % 128 < m.buffer.length := by
        rw [image.full m other]
        exact Nat.mod_lt a (by decide)
      rw [sought] at before
      rw [Option.map_some, Option.bind_some]
      rw [Option.bind_some] at before
      dsimp only [change]
      split_ifs with same
      · rw [List.getElem?_set]
        by_cases place : a = 2 * mr.address + index
        · have last : index = a % 128 := by omega
          rw [if_pos last, if_pos (last ▸ inside), place, Function.update_self]
          exact ⟨fun none => absurd none (Option.some_ne_none _), fun b found => (Option.some_inj.mp found).symm⟩
        · have last : index ≠ a % 128 := by omega
          rw [if_neg last, Function.update_of_ne place]
          exact before
      · have place : a ≠ 2 * mr.address + index := by omega
        rw [Function.update_of_ne place]
        exact before

end

/-! ### Records -/

/-- What a line of a firmware file says. -/
inductive Record
  | extended (high : UInt16)
  | data (low : UInt16) (bytes : List UInt8)

/-- The line of a record, with any checksum: it is not read. -/
def Record.text (checkSum : UInt8) : Record → List Char
  | .extended high => ':' :: (hex 2 2 ++ hex 4 0 ++ hex 2 4 ++ (hex 4 high.toNat ++ hex 2 checkSum.toNat))
  | .data low bytes =>
    ':' :: (hex 2 bytes.length ++ hex 4 low.toNat ++ hex 2 0 ++ (bytes.flatMap (fun byte => hex 2 byte.toNat) ++ hex 2 checkSum.toNat))

/-- The upper half of the addresses that follow, and the memory so far. -/
structure Spec where
  high : UInt16
  mem : ℕ → Option UInt8

/-- Bytes from an address on. -/
def write (mem : ℕ → Option UInt8) (start : ℕ) (bytes : List UInt8) : ℕ → Option UInt8 :=
  fun a => if start ≤ a ∧ a < start + bytes.length then bytes[a - start]? else mem a

def Spec.next (s : Spec) : Record → Spec
  | .extended high => { s with high := high }
  | .data low bytes => { s with mem := write s.mem (s.high.toNat * 2 ^ 16 + low.toNat) bytes }

/-- A record that can be read: its line is short enough, and it refers to code memory. -/
def Readable (chip : ChipType) (s : Spec) : Record → Prop
  | .extended _ => True
  | .data low bytes => bytes.length ≤ 43 ∧ s.high.toNat * 2 ^ 16 + low.toNat < 4 * chip.programWords.toNat ∧
    s.high.toNat * 2 ^ 16 + low.toNat + bytes.length ≤ 4 * chip.programWords.toNat

/-- All records of a file can be read, each after those before. -/
def AllReadable (chip : ChipType) : Spec → List Record → Prop
  | _, [] => True
  | s, record :: records => Readable chip s record ∧ AllReadable chip (s.next record) records

section
variable {chip : ChipType} {rows : List MemoryRow} {bytes : List UInt8} {mem : ℕ → Option UInt8} {start i : ℕ} {low high : UInt16}
  {checkSum byte : UInt8} {before after : List Char}

theorem write_nil (mem : ℕ → Option UInt8) (start : ℕ) : write mem start [] = mem := by
  funext a
  exact if_neg fun both => absurd both.2 (by simpa using both.1)

/-- The next byte. -/
theorem write_take (found : bytes[i]? = some byte) :
    write mem start (bytes.take (i + 1)) = Function.update (write mem start (bytes.take i)) (start + i) (some byte) := by
  obtain ⟨inside, same⟩ := List.getElem?_eq_some_iff.mp found
  funext a
  rw [Function.update_apply, write, write, List.length_take_of_le inside, List.length_take_of_le (Nat.le_of_lt inside)]
  by_cases here : a = start + i
  · subst here
    rw [if_pos (by omega), if_pos rfl, Nat.add_sub_cancel_left, List.getElem?_take_of_lt (Nat.lt_succ_self i), found]
  · rw [if_neg here]
    by_cases earlier : start ≤ a ∧ a < start + i
    · rw [if_pos (by omega), if_pos earlier, List.getElem?_take_of_lt (by omega), List.getElem?_take_of_lt (by omega)]
    · rw [if_neg (by omega), if_neg earlier]

theorem hex_two (n : ℕ) : hex 2 n = [hexDigit (n / 16 % 16), hexDigit (n % 16)] := rfl

/-- The characters of one byte. -/
theorem flatMap_hex (found : bytes[i]? = some byte) :
    (bytes.flatMap fun byte => hex 2 byte.toNat)[2 * i]? = some (hexDigit (byte.toNat / 16 % 16)) ∧
      (bytes.flatMap fun byte => hex 2 byte.toNat)[2 * i + 1]? = some (hexDigit (byte.toNat % 16)) := by
  induction bytes generalizing i with
  | nil => exact absurd found (by simp)
  | cons first bytes ih =>
    rw [List.flatMap_cons, hex_two, List.cons_append, List.singleton_append]
    cases i with
    | zero =>
      obtain rfl : first = byte := by simpa using found
      exact ⟨rfl, rfl⟩
    | succ i => exact ih (by simpa using found)

/-- A byte of a record is read as it was written. -/
theorem twoDigits_ok (found : bytes[i]? = some byte) (length : before.length = 9) :
    twoDigits (before ++ ((bytes.flatMap fun byte => hex 2 byte.toNat) ++ after)) (9 + 2 * i) = .ok byte := by
  obtain ⟨first, second⟩ := flatMap_hex found
  have there (k : ℕ) (c : Char) (at_k : (bytes.flatMap fun byte => hex 2 byte.toNat)[k]? = some c) :
      (before ++ ((bytes.flatMap fun byte => hex 2 byte.toNat) ++ after))[9 + k]? = some c := by
    obtain ⟨inside, -⟩ := List.getElem?_eq_some_iff.mp at_k
    rw [List.getElem?_append_right (by omega), length, Nat.add_sub_cancel_left, List.getElem?_append_left inside, at_k]
  have number : strtoul (hex 2 byte.toNat) = byte.toNat := by
    rw [strtoul_hex]
    exact Nat.mod_eq_of_lt byte.toNat_lt
  rw [twoDigits, there _ _ first, Nat.add_assoc, there _ _ second]
  change Except.ok (UInt8.ofNat (strtoul (cString (hex 2 byte.toNat)))) = _
  rw [cString_plain (hex_plain fun d small => (hexDigit_cases small).2.2.1), number, UInt8.ofNat_toNat]

/-- While the bytes of a record are read: the row and the index are those of the next address, or just after it. -/
structure Reading (mem : ℕ → Option UInt8) (start : ℕ) (bytes : List UInt8) (i : ℕ) (p : Place) : Prop where
  image : Image p.mrList
  holds : Holds p.mrList (write mem start (bytes.take i))
  there : p.row ∈ p.mrList.map (·.address)
  place : 2 * (p.row : ℤ) + (p.addressLow + i + p.offset) = start + i
  low : 0 ≤ p.addressLow + i + p.offset
  high : p.addressLow + i + p.offset ≤ 128

/-- The row that is to be written: the one before goes over into the next at its end. -/
theorem Reading.step {p : Place} (before after : List Char) (reading : Reading mem start bytes i p)
    (inside : start + bytes.length ≤ 4 * chip.programWords.toNat) (found : bytes[i]? = some byte) (length : before.length = 9) :
    ∃ p', Place.byte chip (before ++ ((bytes.flatMap fun byte => hex 2 byte.toNat) ++ after)) p i = .ok p' ∧
      Reading mem start bytes (i + 1) p' := by
  have less : i < bytes.length := (List.getElem?_eq_some_iff.mp found).1
  -- what is stored once the row is right
  have last (q : Place) (reading : Reading mem start bytes i q) (short : q.addressLow + i + q.offset < 128) :
      ∃ rows', store q.mrList q.row (q.addressLow + i + q.offset).toNat byte = .ok rows' ∧
        Reading mem start bytes (i + 1) { q with mrList := rows' } := by
    obtain ⟨k, index⟩ := Int.eq_ofNat_of_zero_le reading.low
    have place := reading.place
    rw [index] at place short
    have address : 2 * q.row + k = start + i := by omega
    obtain ⟨rows', stored, image, there, holds⟩ := store_ok reading.image reading.holds reading.there (Int.ofNat_lt.mp short) byte
    rw [index, Int.toNat_natCast]
    refine ⟨rows', stored, ⟨image, ?_, there, ?_, ?_, ?_⟩⟩
    · rwa [write_take found, ← address]
    · dsimp only
      push_cast
      omega
    · dsimp only
      push_cast
      omega
    · dsimp only
      push_cast
      omega
  rw [Place.byte, twoDigits_ok found length]
  by_cases full : 128 ≤ p.addressLow + i + p.offset
  · -- the row before is full, and the next one begins at this byte
    obtain ⟨mr, among, same⟩ := List.mem_map.mp reading.there
    have aligned := reading.image.aligned mr among
    rw [same] at aligned
    have place := reading.place
    have high := reading.high
    have within : (p.row + 0x40) * 2 < 4 * chip.programWords.toNat := by omega
    have start_eq : (p.row + 0x40) * 2 / 128 * 64 = p.row + 64 := by omega
    obtain ⟨rows', row, image, holds, there⟩ := getMemoryRow_code reading.image reading.holds within
    rw [start_eq] at row there
    obtain ⟨rows'', stored, more⟩ := last { mrList := rows', row := p.row + 64, addressLow := 0, offset := -i }
      ⟨image, holds, there, by dsimp only; push_cast; omega, by simp, by simp⟩ (by simp)
    refine ⟨_, ?_, more⟩
    simp only [bind, Except.bind, full, if_true, row, stored]
  · obtain ⟨rows', stored, more⟩ := last p reading (not_le.mp full)
    refine ⟨_, ?_, more⟩
    simp only [bind, Except.bind, full, if_false, stored]

end

/-! ### Lines -/

section
variable {chip : ChipType} {s : Spec} {r : Reader} {record : Record} {before h after : List Char} {c : Char}

/-- What is read of a line that is cut off behind its digits. -/
theorem cString_cut (before : List Char) (printed : ∀ c ∈ h, ∃ d < 16, c = hexDigit d) (more : after ≠ []) :
    cString (((before ++ (h ++ after)).set (before.length + h.length) '\x00').drop before.length) = h := by
  obtain ⟨c, after, rfl⟩ := List.exists_cons_of_ne_nil more
  have plain : '\x00' ∉ h := fun among => by
    obtain ⟨d, small, same⟩ := printed _ among
    exact (hexDigit_cases small).2.2.1 same.symm
  rw [List.set_append_right _ _ (Nat.le_add_right _ _), Nat.add_sub_cancel_left, List.set_append_right _ _ le_rfl, Nat.sub_self,
    List.set_cons_zero, List.drop_left, cString_append plain]

theorem printed_append {s t : List Char} (first : ∀ c ∈ s, ∃ d < 16, c = hexDigit d) (second : ∀ c ∈ t, ∃ d < 16, c = hexDigit d) :
    ∀ c ∈ s ++ t, ∃ d < 16, c = hexDigit d :=
  fun c among => (List.mem_append.mp among).elim (first c) (second c)

/-- The length, the address and the type of a record. -/
def ident (recLen addressLow recType : ℕ) : List Char := hex 2 recLen ++ hex 4 addressLow ++ hex 2 recType

theorem ident_printed (recLen addressLow recType : ℕ) : ∀ c ∈ ident recLen addressLow recType, ∃ d < 16, c = hexDigit d :=
  printed_append (printed_append (fun _ => mem_hex) fun _ => mem_hex) fun _ => mem_hex

theorem ident_length (recLen addressLow recType : ℕ) : (ident recLen addressLow recType).length = 8 := by
  rw [ident, List.length_append, List.length_append, hex_length, hex_length, hex_length]

theorem ident_value {recLen addressLow recType : ℕ} (length : recLen < 2 ^ 8) (address : addressLow < 2 ^ 16) (type : recType < 2 ^ 8) :
    strtoul (ident recLen addressLow recType) = recLen * 2 ^ 24 + addressLow * 2 ^ 8 + recType := by
  have last := digits_hex 2 recType (16 ^ 4 * (16 ^ 2 * 0 + recLen % 16 ^ 2) + addressLow % 16 ^ 4) []
  rw [List.append_nil] at last
  rw [strtoul_digits (ident_printed _ _ _), ident, List.append_assoc, digits_hex, digits_hex, last, digits]
  omega

theorem ident_parts (recLen addressLow recType : ℕ) (length : recLen < 2 ^ 8) (address : addressLow < 2 ^ 16) (type : recType < 2 ^ 8) :
    strtoul (ident recLen addressLow recType) / 2 ^ 24 % 0x100 = recLen ∧
      strtoul (ident recLen addressLow recType) / 2 ^ 8 % 0x10000 = addressLow ∧
      strtoul (ident recLen addressLow recType) % 0x100 = recType := by
  rw [ident_value length address type]
  omega

/-- What a line begins with is read back. -/
theorem ident_read (recLen addressLow recType : ℕ) (more : after ≠ []) :
    cString ((([':'] ++ (ident recLen addressLow recType ++ after)).set 9 '\x00').drop 1) = ident recLen addressLow recType := by
  have cut := cString_cut [':'] (ident_printed recLen addressLow recType) more
  rw [ident_length] at cut
  exact cut

/-- The buffer after the line of a record, and what is left in it of the line before. -/
theorem extended_text (high : UInt16) (checkSum : UInt8) (rest : List Char) : (Record.extended high).text checkSum ++ ['\n'] ++ rest =
    [':'] ++ (ident 2 0 4 ++ (hex 4 high.toNat ++ (hex 2 checkSum.toNat ++ '\n' :: rest))) := by
  simp only [Record.text, ident, List.append_assoc, List.cons_append, List.nil_append]

theorem data_text (low : UInt16) (bytes : List UInt8) (checkSum : UInt8) (rest : List Char) :
    (Record.data low bytes).text checkSum ++ ['\n'] ++ rest =
      [':'] ++ (ident bytes.length low.toNat 0 ++ ((bytes.flatMap fun byte => hex 2 byte.toNat) ++ (hex 2 checkSum.toNat ++ '\n' :: rest))) := by
  simp only [Record.text, ident, List.append_assoc, List.cons_append, List.nil_append]

/-- The reader after some records. -/
structure Follows (s : Spec) (r : Reader) : Prop where
  image : Image r.mrList
  holds : Holds r.mrList s.mem
  high : r.addressHigh = s.high.toNat

/-- Each record is read as it says. -/
theorem Follows.line (follows : Follows s r) (readable : Readable chip s record) (checkSum : UInt8) :
    ∃ r', r.line chip (record.text checkSum ++ ['\n']) = .ok (false, r') ∧ Follows (s.next record) r' := by
  cases record with
  | extended high =>
    have small := high.toNat_lt
    obtain ⟨recLen, addressLow, recType⟩ := ident_parts 2 0 4 (by decide) (by decide) (by decide)
    rw [Reader.line]
    simp only [extended_text]
    generalize '\x00' :: r.fileBuffer.drop _ = rest
    have more : hex 2 checkSum.toNat ++ '\n' :: rest ≠ [] := by simp
    have cut := cString_cut ([':'] ++ ident 2 0 4) (h := hex 4 high.toNat) (fun _ => mem_hex) more
    rw [List.length_append, ident_length, hex_length, List.append_assoc] at cut
    change cString (List.drop 9 (List.set _ 13 _)) = _ at cut
    have upper :
        strtoul (cString ((([':'] ++ (ident 2 0 4 ++ (hex 4 high.toNat ++ (hex 2 checkSum.toNat ++ '\n' :: rest)))).set 13 '\x00').drop 9))
        % 0x10000 = high.toNat := by
      rw [cut, strtoul_hex]
      omega
    rw [if_neg (fun other => other rfl), ident_read _ _ _ (by simp), recType, recLen, addressLow]
    rw [if_neg (by simp), upper]
    exact ⟨_, rfl, follows.image, follows.holds, rfl⟩
  | data low bytes =>
    obtain ⟨short, start, inside⟩ := readable
    have small := low.toNat_lt
    obtain ⟨recLen, addressLow, recType⟩ := ident_parts bytes.length low.toNat 0
      (by omega) (by omega) (by decide)
    rw [Reader.line]
    simp only [data_text]
    generalize '\x00' :: r.fileBuffer.drop _ = rest
    rw [if_neg (fun other => other rfl), ident_read _ _ _ (by simp), recType, recLen, addressLow]
    -- configuration memory is not code memory
    have bound := chip.programWords.toNat_lt
    have upper : r.addressHigh ≠ 0x00F8 := by
      rw [follows.high]
      omega
    rw [follows.high] at upper ⊢
    obtain ⟨rows, row, image, holds, there⟩ := getMemoryRow_code follows.image follows.holds start
    have begins : (low.toNat + 0x10000 - 2 * ((s.high.toNat * 2 ^ 16 + low.toNat) / 128 * 64 % 0x10000) % 0x10000) % 0x10000 =
        (s.high.toNat * 2 ^ 16 + low.toNat) % 128 := by omega
    -- all bytes of the record are read, one after the other
    obtain ⟨p, read, reading⟩ := foldlM_range (n := bytes.length)
      (f := Place.byte chip ([':'] ++ (ident bytes.length low.toNat 0 ++
        ((bytes.flatMap fun byte => hex 2 byte.toNat) ++ (hex 2 checkSum.toNat ++ '\n' :: rest)))))
      (Reading s.mem (s.high.toNat * 2 ^ 16 + low.toNat) bytes)
      (fun i less p reading => by
        have step := reading.step ([':'] ++ ident bytes.length low.toNat 0) (hex 2 checkSum.toNat ++ '\n' :: rest) inside
          (List.getElem?_eq_getElem less) (by rw [List.length_append, ident_length]; rfl)
        rwa [List.append_assoc] at step)
      (s := { mrList := rows, row := (s.high.toNat * 2 ^ 16 + low.toNat) / 128 * 64,
              addressLow := (s.high.toNat * 2 ^ 16 + low.toNat) % 128, offset := 0 })
      ⟨image, by rwa [List.take_zero, write_nil], there, by dsimp only; push_cast; omega, by dsimp only; omega, by dsimp only; omega⟩
    have all := reading.holds
    rw [List.take_length] at all
    rw [if_neg upper, row]
    simp only [begins, read, bind, Except.bind]
    exact ⟨_, rfl, reading.image, all, rfl⟩

/-! ### Files -/

variable {records : List (Record × UInt8)}

theorem Record.plain (record : Record) (checkSum : UInt8) : '\n' ∉ record.text checkSum := by
  have digits (k n : ℕ) : '\n' ∉ hex k n := hex_plain fun d small => (hexDigit_cases small).2.2.2
  have bytes (bytes : List UInt8) : '\n' ∉ bytes.flatMap fun byte => hex 2 byte.toNat := by
    rw [List.mem_flatMap]
    rintro ⟨byte, -, among⟩
    exact digits _ _ among
  cases record <;> simp only [text, List.mem_cons, List.mem_append, digits, bytes] <;> decide

theorem Record.short {record : Record} (readable : Readable chip s record) (checkSum : UInt8) : (record.text checkSum).length < 99 := by
  have pairs (bytes : List UInt8) : (bytes.flatMap fun byte => hex 2 byte.toNat).length = 2 * bytes.length := by
    induction bytes with
    | nil => rfl
    | cons byte bytes ih => rw [List.flatMap_cons, List.length_append, hex_length, ih, List.length_cons, Nat.mul_succ, Nat.add_comm]
  cases record with
  | extended high => simp [text]
  | data low bytes =>
    have few := readable.1
    simp only [text, List.length_cons, List.length_append, hex_length, pairs]
    omega

/-- A file of records. -/
def fileText (records : List (Record × UInt8)) : List Char := records.flatMap fun line => line.1.text line.2 ++ ['\n']

/-- A file of records that can be read, whatever their checksums are and whatever follows the end, is read into distinct and full rows
    of code memory that hold what the records give. -/
theorem readHexFile_rows (chip : ChipType) (memory rest : List Char) (records : List (Record × UInt8))
    (readable : AllReadable chip ⟨0, fun _ => none⟩ (records.map Prod.fst)) :
    ∃ rows, readHexFile chip memory (fileText records ++ (writeEOFRecord ++ rest)) = .ok rows ∧ Image rows ∧
      Holds rows ((records.map Prod.fst).foldl Spec.next ⟨0, fun _ => none⟩).mem := by
  have all (records : List (Record × UInt8)) (s : Spec) (r : Reader) (follows : Follows s r)
      (readable : AllReadable chip s (records.map Prod.fst)) :
      ∃ rows, Reader.lines chip r (CStrings.lines 99 (fileText records ++ (writeEOFRecord ++ rest))) = .ok rows ∧ Image rows ∧
        Holds rows ((records.map Prod.fst).foldl Spec.next s).mem := by
    induction records generalizing s r with
    | nil =>
      refine ⟨r.mrList, ?_, follows.image, follows.holds⟩
      have file : fileText [] ++ (writeEOFRecord ++ rest) = ":00000001FF".toList ++ '\n' :: rest := rfl
      obtain ⟨-, -, recType⟩ := ident_parts 0 0 1 (by decide) (by decide) (by decide)
      rw [file, lines_line (by decide) (by decide), Reader.lines, Reader.line]
      have buffer (rest : List Char) : ":00000001FF".toList ++ ['\n'] ++ rest = [':'] ++ (ident 0 0 1 ++ ('F' :: 'F' :: '\n' :: rest)) := rfl
      simp only [buffer]
      rw [if_neg (fun other => other rfl), ident_read _ _ _ (List.cons_ne_nil _ _), recType]
      rfl
    | cons line records ih =>
      obtain ⟨record, checkSum⟩ := line
      obtain ⟨now, later⟩ := readable
      obtain ⟨r', read, next⟩ := follows.line now checkSum
      obtain ⟨rows, ended, image, holds⟩ := ih (s.next record) r' next later
      refine ⟨rows, ?_, image, holds⟩
      have file : fileText ((record, checkSum) :: records) ++ (writeEOFRecord ++ rest) =
          record.text checkSum ++ '\n' :: (fileText records ++ (writeEOFRecord ++ rest)) := by
        simp only [fileText, List.flatMap_cons, List.append_assoc, List.cons_append, List.nil_append]
      rw [file, lines_line (record.plain checkSum) (Record.short now checkSum), Reader.lines, read]
      exact ended
  exact all records _ _ ⟨⟨List.nodup_nil, by simp, by simp, by simp, by simp⟩, holds_nil, rfl⟩ readable

end

/-! ### Written files -/

/-- A call of one of the functions that write records; the buffer has sixteen bytes. -/
inductive Written
  | ela (address : UInt32)
  | data (adrsLow : UInt16) (buffer : { buffer : List UInt8 // buffer.length = 16 })

def Written.text : Written → List Char
  | .ela address => writeELARecord address
  | .data adrsLow buffer => writeDataRecord adrsLow buffer

/-- What a call is to say: addresses are doubled in a file. -/
def Written.record : Written → Record
  | .ela address => .extended (UInt16.ofNat (2 * address.toNat / 2 ^ 16))
  | .data adrsLow buffer => .data (2 * adrsLow) buffer

/-- The upper half of a doubled address. -/
theorem upper_half (address : UInt32) :
    (UInt16.ofNat (2 * address.toNat / 2 ^ 16)).toNat = ((address >>> (15 : UInt32)) &&& (0xFFFF : UInt32)).toNat := by
  have mask : (0xFFFF : UInt32).toNat = 2 ^ 16 - 1 := rfl
  have shift : (15 : UInt32).toNat % 32 = 15 := rfl
  rw [UInt16.toNat_ofNat', UInt32.toNat_and, UInt32.toNat_shiftRight, mask, shift, Nat.and_two_pow_sub_one_eq_mod,
    Nat.shiftRight_eq_div_pow]
  omega

theorem writeELARecord_eq (address : UInt32) : ∃ checkSum : UInt8, writeELARecord address =
    ":02000004".toList ++ hex 4 ((address >>> (15 : UInt32)) &&& (0xFFFF : UInt32)).toNat ++ hex 2 checkSum.toNat ++ ['\n'] := ⟨_, rfl⟩

theorem writeDataRecord_eq (adrsLow : UInt16) (buffer : List UInt8) : ∃ checkSum : UInt8, writeDataRecord adrsLow buffer =
    ":10".toList ++ hex 4 (adrsLow * 2).toNat ++ "00".toList ++ buffer.flatMap (fun byte => hex 2 byte.toNat) ++ hex 2 checkSum.toNat ++
      ['\n'] := ⟨_, rfl⟩

theorem Written.text_eq (w : Written) : ∃ checkSum, w.text = w.record.text checkSum ++ ['\n'] := by
  cases w with
  | ela address =>
    have start : ":02000004".toList = ':' :: (hex 2 2 ++ hex 4 0 ++ hex 2 4) := rfl
    obtain ⟨checkSum, written⟩ := writeELARecord_eq address
    refine ⟨checkSum, written.trans ?_⟩
    rw [start, ← upper_half]
    simp only [record, Record.text, List.append_assoc, List.cons_append]
  | data adrsLow buffer =>
    obtain ⟨buffer, length⟩ := buffer
    have start : ":10".toList = ':' :: hex 2 16 := rfl
    have type : "00".toList = hex 2 0 := rfl
    obtain ⟨checkSum, written⟩ := writeDataRecord_eq adrsLow buffer
    refine ⟨checkSum, written.trans ?_⟩
    rw [start, type, UInt16.mul_comm adrsLow]
    simp only [record, Record.text, length, List.append_assoc, List.cons_append]

/-- For every chip and every sequence of calls that write records: if they refer to code memory, the file that they write is read, the rows
    are distinct and full rows of code memory, and each byte is the last one that a call gives for twice its address. -/
theorem written_files_read (chip : ChipType) (memory rest : List Char) (calls : List Written)
    (readable : AllReadable chip ⟨0, fun _ => none⟩ (calls.map Written.record)) :
    ∃ rows, readHexFile chip memory (calls.flatMap Written.text ++ (writeEOFRecord ++ rest)) = .ok rows ∧ Image rows ∧
      Holds rows ((calls.map Written.record).foldl Spec.next ⟨0, fun _ => none⟩).mem := by
  obtain ⟨records, same, file⟩ : ∃ records : List (Record × UInt8), records.map Prod.fst = calls.map Written.record ∧
      fileText records = calls.flatMap Written.text := by
    clear readable
    induction calls with
    | nil => exact ⟨[], rfl, rfl⟩
    | cons w calls ih =>
      obtain ⟨records, same, file⟩ := ih
      obtain ⟨checkSum, text⟩ := w.text_eq
      refine ⟨(w.record, checkSum) :: records, ?_, ?_⟩
      · rw [List.map_cons, List.map_cons, same]
      · rw [fileText, List.flatMap_cons, List.flatMap_cons, text, ← file]
        rfl
  rw [← same] at readable ⊢
  rw [← file]
  exact readHexFile_rows chip memory rest records readable

/-- Sixteen bytes at the end of a row, and what they leave over in the next one. -/
theorem written_file_read :
    let calls : List Written := [.ela 0x8000, .data 0x003C ⟨.replicate 16 1, rfl⟩, .data 0x0040 ⟨.replicate 16 2, rfl⟩]
    ∃ rows, readHexFile pic30f6010 [] (calls.flatMap Written.text ++ (writeEOFRecord ++ [])) = .ok rows ∧ Image rows ∧
      Holds rows ((calls.map Written.record).foldl Spec.next ⟨0, fun _ => none⟩).mem := by
  intro calls
  exact written_files_read pic30f6010 [] [] calls ⟨trivial, ⟨by decide, by decide, by decide⟩, ⟨by decide, by decide, by decide⟩, trivial⟩

end Tortuga.HexImages
