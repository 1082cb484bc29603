import Mathlib.Tactic.IntervalCases
import Tortuga.HexImages

/-!
The upload of a firmware (`loader.c`): each row of code memory is sent in a frame with a checksum, and the next one when the boot loader
has acknowledged it. What the frames mean is said by a receiver that writes a row when its checksum is right.
-/
namespace Tortuga.FirmwareUpload
open Tortuga.HexFiles
open Tortuga.HexImages

/-- The reset vector that leads to the boot loader. -/
def reset : List UInt8 := [0x00, 0x7D, 0x04, 0x00, 0x01, 0x00]

/-- The bytes of a row that are sent. -/
def payload (mr : MemoryRow) : List UInt8 :=
  if mr.address = 0 then
    (((((mr.buffer.set 0 0x00).set 1 0x7D).set 2 0x04).set 3 0x00).set 4 0x01).set 5 0x00
  else mr.buffer

/-- What `writeByte` is called with for a row. -/
def frame (mr : MemoryRow) : List UInt8 :=
  let header : List UInt8 := [UInt8.ofNat (mr.address / 2 ^ 16), UInt8.ofNat (mr.address / 2 ^ 8), UInt8.ofNat mr.address, 0x81]
  let data := (payload mr).take 128
  let crc := data.foldl (· + ·) (header.foldl (· + ·) 0)
  0x02 :: (header ++ (data ++ [0xFF - crc + 1]))

/-- The results of `readByte` in turn, `-1` when there is nothing. -/
def readByte : List ℤ → ℤ × List ℤ
  | [] => (-1, [])
  | i :: replies => (i, replies)

/-- The reply is asked for again while there is none. -/
def poll : ℕ → ℤ × List ℤ → ℤ × List ℤ
  | 0, reply => reply
  | c + 1, (i, replies) => if i = -1 then poll c (readByte replies) else (i, replies)

/-- `writeProgram`: whether it succeeds, and all that it writes. -/
def writeProgram : List MemoryRow → List ℤ → Bool × List UInt8
  | [], _ => (true, [])
  | mr :: mrList, replies =>
    match mr.type with
    | .code =>
      let (i, replies) := poll 100 (readByte replies)
      if i ≠ 0x55 then (false, frame mr)
      else
        let (success, bytes) := writeProgram mrList replies
        (success, frame mr ++ bytes)
    | _ => writeProgram mrList replies

/-! ### The receiver -/

/-- The program memory, by the addresses of the file. -/
abbrev Flash := ℕ → UInt8

/-- A row of bytes from an address on. -/
def writeRow (flash : Flash) (start : ℕ) (data : List UInt8) : Flash :=
  fun a => if start ≤ a then (data[a - start]?).getD (flash a) else flash a

/-- Frames are received one after the other: a command to write, three bytes of an address, how many bytes follow, these bytes, the last of
    which makes the sum zero. Nothing else is accepted. -/
def receive (flash : Flash) : List UInt8 → Option Flash
  | [] => some flash
  | 0x02 :: high :: medium :: low :: count :: rest =>
    let row := rest.take count.toNat
    if row.length = count.toNat ∧ (high :: medium :: low :: count :: row).foldl (· + ·) 0 = 0 then
      receive (writeRow flash (2 * (high.toNat * 2 ^ 16 + medium.toNat * 2 ^ 8 + low.toNat)) row.dropLast) (rest.drop count.toNat)
    else none
  | _ => none
termination_by bytes => bytes.length
decreasing_by
  simp only [List.length_cons, List.length_drop]
  omega

section
variable {rows : List MemoryRow} {flash : Flash} {mr : MemoryRow}

theorem payload_length (mr : MemoryRow) : (payload mr).length = mr.buffer.length := by
  rw [payload]
  split_ifs <;> simp

/-- The last byte makes the sum zero. -/
theorem frame_sum (crc : UInt8) : crc + (0xFF - crc + 1) = 0 := by
  grind

/-- A frame is accepted, and its row is written. -/
theorem receive_frame (flash : Flash) (full : mr.buffer.length = 128) (within : mr.address < 2 ^ 24) (rest : List UInt8) :
    receive flash (frame mr ++ rest) = receive (writeRow flash (2 * mr.address) (payload mr)) rest := by
  have length := payload_length mr
  rw [full] at length
  have all : (payload mr).take 128 = payload mr := List.take_of_length_le length.le
  rw [frame, all]
  generalize crc_eq : (payload mr).foldl (· + ·) _ = crc
  have count : (0x81 : UInt8).toNat = (payload mr ++ [0xFF - crc + 1]).length := by
    rw [List.length_append, length]
    rfl
  simp only [List.cons_append, List.nil_append]
  rw [receive, count, List.take_left, List.drop_left, List.dropLast_concat]
  have address : (UInt8.ofNat (mr.address / 2 ^ 16)).toNat * 2 ^ 16 + (UInt8.ofNat (mr.address / 2 ^ 8)).toNat * 2 ^ 8 +
      (UInt8.ofNat mr.address).toNat = mr.address := by
    simp only [UInt8.toNat_ofNat']
    omega
  have sum : (UInt8.ofNat (mr.address / 2 ^ 16) :: UInt8.ofNat (mr.address / 2 ^ 8) :: UInt8.ofNat mr.address :: 0x81 ::
      (payload mr ++ [0xFF - crc + 1])).foldl (· + ·) 0 = 0 := by
    have last := frame_sum crc
    nth_rewrite 1 [← crc_eq] at last
    simpa only [List.foldl_cons, List.foldl_append, List.foldl_nil] using last
  rw [if_pos ⟨rfl, sum⟩, address]

/-- What a receiver has when it has written some rows. -/
def written (flash : Flash) (rows : List MemoryRow) : Flash := rows.foldl (fun flash mr => writeRow flash (2 * mr.address) (payload mr)) flash

theorem writeRow_apply {address a : ℕ} {data : List UInt8} (aligned : address % 64 = 0) (length : data.length = 128) :
    writeRow flash (2 * address) data a = if address = a / 128 * 64 then (data[a % 128]?).getD (flash a) else flash a := by
  rw [writeRow]
  split_ifs with after here
  · rw [show a - 2 * address = a % 128 by omega]
  · rw [List.getElem?_eq_none (by omega), Option.getD_none]
  · omega
  · rfl

/-- Rows that are distinct are all there. -/
theorem written_apply (flash : Flash) (image : Image rows) (a : ℕ) :
    written flash rows a = ((rows.find? fun mr => mr.address = a / 128 * 64).bind fun mr => (payload mr)[a % 128]?).getD (flash a) := by
  obtain ⟨distinct, aligned, full, -, -⟩ := image
  induction rows generalizing flash with
  | nil => rfl
  | cons mr rows ih =>
    rw [List.map_cons, List.nodup_cons] at distinct
    have length : (payload mr).length = 128 := by rw [payload_length, full mr List.mem_cons_self]
    have later := ih (writeRow flash (2 * mr.address) (payload mr)) distinct.2
      (fun m among => aligned m (List.mem_cons_of_mem _ among)) fun m among => full m (List.mem_cons_of_mem _ among)
    change written (writeRow flash (2 * mr.address) (payload mr)) rows a = _
    rw [later, writeRow_apply (aligned mr List.mem_cons_self) length, List.find?_cons]
    by_cases here : mr.address = a / 128 * 64
    · -- no later row has this address
      have none : (rows.find? fun m => m.address = a / 128 * 64) = none := by
        refine List.find?_eq_none.mpr fun m among same => distinct.1 ?_
        rw [here, ← of_decide_eq_true same]
        exact List.mem_map_of_mem among
      simp only [here, none, if_true, decide_true, Option.bind_none, Option.getD_none, Option.bind_some]
    · simp only [here, if_false, decide_false]

/-- Whatever the replies are, the receiver has written the rows up to one of them, and all of them if the program succeeds. -/
theorem receive_writeProgram (flash : Flash) (image : Image rows) (replies : List ℤ) :
    ∃ sent unsent, rows = sent ++ unsent ∧ receive flash (writeProgram rows replies).2 = some (written flash sent) ∧
      ((writeProgram rows replies).1 = true → unsent = []) := by
  obtain ⟨-, -, full, code, within⟩ := image
  induction rows generalizing flash replies with
  | nil => exact ⟨[], [], rfl, by rw [writeProgram, receive]; rfl, fun _ => rfl⟩
  | cons mr rows ih =>
    have accepted := receive_frame flash (full mr List.mem_cons_self) (within mr List.mem_cons_self)
    rw [writeProgram, code mr List.mem_cons_self]
    dsimp only
    generalize poll 100 (readByte replies) = reply
    by_cases acknowledged : reply.1 ≠ 0x55
    · rw [if_pos acknowledged]
      refine ⟨[mr], rows, rfl, ?_, fun success => absurd success Bool.false_ne_true⟩
      have alone := accepted []
      rw [List.append_nil, receive] at alone
      exact alone
    · rw [if_neg acknowledged]
      obtain ⟨sent, unsent, rfl, received, all⟩ := ih (writeRow flash (2 * mr.address) (payload mr)) reply.2
        (fun m among => full m (List.mem_cons_of_mem _ among)) (fun m among => code m (List.mem_cons_of_mem _ among))
        fun m among => within m (List.mem_cons_of_mem _ among)
      refine ⟨mr :: sent, unsent, rfl, ?_, all⟩
      rw [accepted, received]
      rfl

/-- The program succeeds when each row is acknowledged at once. -/
theorem writeProgram_acknowledged (code : ∀ mr ∈ rows, mr.type = .code) : (writeProgram rows (.replicate rows.length 0x55)).1 = true := by
  induction rows with
  | nil => rfl
  | cons mr rows ih =>
    rw [writeProgram, code mr List.mem_cons_self]
    exact ih fun m among => code m (List.mem_cons_of_mem _ among)

/-- What is sent of a row is what is in it, but for the reset vector. -/
theorem payload_apply (full : mr.buffer.length = 128) (a : ℕ) (here : mr.address = a / 128 * 64) :
    (payload mr)[a % 128]? = (mr.buffer[a % 128]?).map fun byte => reset.getD a byte := by
  have inside : a % 128 < mr.buffer.length := by
    rw [full]
    exact Nat.mod_lt a (by decide)
  rw [List.getElem?_eq_getElem inside, Option.map_some, payload]
  by_cases first : mr.address = 0
  · have place : a % 128 = a := by omega
    rw [if_pos first]
    simp only [place] at inside ⊢
    by_cases vector : a < 6
    · interval_cases a <;> simp [reset, full]
    · have same : reset.getD a mr.buffer[a] = mr.buffer[a] := by
        rw [List.getD_eq_getElem?_getD, List.getElem?_eq_none (by simpa [reset] using not_lt.mp vector), Option.getD_none]
      rw [same]
      simp only [List.getElem?_set, List.length_set]
      rw [if_neg (by omega), if_neg (by omega), if_neg (by omega), if_neg (by omega), if_neg (by omega), if_neg (by omega),
        List.getElem?_eq_getElem inside]
  · have same : reset.getD a mr.buffer[a % 128] = mr.buffer[a % 128] := by
      rw [List.getD_eq_getElem?_getD, List.getElem?_eq_none (by simp only [reset, List.length_cons, List.length_nil]; omega),
        Option.getD_none]
    rw [if_neg first, same, List.getElem?_eq_getElem inside]

/-- The flash after all rows: what the rows have, but for the reset vector, and what it had elsewhere. -/
theorem written_peek (image : Image rows) (a : ℕ) :
    written flash rows a = ((peek rows a).map fun byte => reset.getD a byte).getD (flash a) := by
  rw [written_apply flash image, peek]
  cases found : rows.find? fun mr => mr.address = a / 128 * 64 with
  | none => rfl
  | some mr =>
    have here : mr.address = a / 128 * 64 := by simpa using List.find?_some found
    rw [Option.bind_some, Option.bind_some, payload_apply (image.full mr (List.mem_of_find?_eq_some found)) a here]

/-- The first of the rows are distinct and full rows as well. -/
theorem image_append {sent unsent : List MemoryRow} (image : Image (sent ++ unsent)) : Image sent := by
  obtain ⟨distinct, aligned, full, code, within⟩ := image
  rw [List.map_append] at distinct
  exact ⟨distinct.of_append_left, fun m among => aligned m (List.mem_append_left _ among), fun m among => full m (List.mem_append_left _ among),
    fun m among => code m (List.mem_append_left _ among), fun m among => within m (List.mem_append_left _ among)⟩

theorem peek_append {sent unsent : List MemoryRow} {a : ℕ} (outside : peek (sent ++ unsent) a = none) : peek sent a = none := by
  rw [peek, List.find?_append] at outside
  rw [peek]
  cases found : sent.find? fun mr => mr.address = a / 128 * 64 with
  | none => rfl
  | some mr => rwa [found, Option.some_or] at outside

end

end Tortuga.FirmwareUpload
