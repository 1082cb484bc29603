import Tortuga.CStrings

/-!
The firmware files of the boards (`dspphex.c`, `dsppmrow.c`): a file of records in the base sixteen is read into rows of the memory
of the chip, which are written to it later. A pointer to a row is its address, of which there is one row at most.
-/
namespace Tortuga.HexFiles
open Tortuga.CStrings

/-- `ChipType`, without the name. -/
structure ChipType where
  programWords : UInt16
  dataWords : UInt16

/-- The entry of `SupportedChips` for which the boards are programmed. -/
def pic30f6010 : ChipType := ⟨0xC000, 0x800⟩

inductive MemoryType
  | code
  | data
  | cnfg
  deriving DecidableEq

structure MemoryRow where
  address : ℕ
  type : MemoryType
  buffer : List UInt8
  deriving DecidableEq

/-- The program ends with a message, or accesses memory that is not there. -/
inductive Failure
  | errExit (message : String)
  | fault
  deriving DecidableEq

/-! ### Rows -/

/-- The start of the row of an address of the file, its type and its length. -/
def rowOf (chip : ChipType) (address : ℕ) : Option MemoryRow :=
  let address := address / 2
  if address < 2 * chip.programWords.toNat then some ⟨address &&& 0xFFFFFC0, .code, .replicate 128 0⟩
  else if 0x800000 - 2 * chip.dataWords.toNat ≤ address ∧ address < 0x800000 then
    some ⟨address &&& 0xFFFFFC0, .data, .replicate 64 0⟩
  else if 0xF80000 ≤ address ∧ address < 0xF800E0 then some ⟨address, .cnfg, .replicate 4 0⟩
  else none

/-- `GetMemoryRow`: the row, and the list with it at the start if it is new. -/
def getMemoryRow (chip : ChipType) (address : ℕ) (mrList : List MemoryRow) : Option (ℕ × List MemoryRow) :=
  (rowOf chip address).map fun row => (row.address, if row.address ∈ mrList.map (·.address) then mrList else row :: mrList)

/-- An assignment to a place of the buffer of a row. -/
def store (mrList : List MemoryRow) (row index : ℕ) (byte : UInt8) : Except Failure (List MemoryRow) :=
  if ∃ mr ∈ mrList, mr.address = row ∧ index < mr.buffer.length then
    .ok (mrList.map fun mr => if mr.address = row then { mr with buffer := mr.buffer.set index byte } else mr)
  else .error .fault

/-! ### Lines -/

/-- `ReadHexFile` between two lines. -/
structure Reader where
  addressHigh : ℕ
  fileBuffer : List Char
  mrList : List MemoryRow
  lineNo : ℕ

/-- The number in two characters of the buffer. -/
def twoDigits (fileBuffer : List Char) (j : ℕ) : Except Failure UInt8 :=
  match fileBuffer[j]?, fileBuffer[j + 1]? with
  | some a, some b => .ok (UInt8.ofNat (strtoul (cString [a, b])))
  | _, _ => .error .fault

/-- Where the bytes of a data record go: the row, and what is added to their index. -/
structure Place where
  mrList : List MemoryRow
  row : ℕ
  addressLow : ℕ
  offset : ℤ

/-- One byte of a record for code or data memory. -/
def Place.byte (chip : ChipType) (fileBuffer : List Char) (p : Place) (i : ℕ) : Except Failure Place := do
  let byte ← twoDigits fileBuffer (9 + 2 * i)
  let p ←
    if 128 ≤ p.addressLow + i + p.offset then
      match getMemoryRow chip ((p.row + 0x40) * 2) p.mrList with
      | some (row, mrList) => .ok { mrList := mrList, row := row, addressLow := 0, offset := -i }
      | none => .error .fault
    else .ok p
  let mrList ← store p.mrList p.row (p.addressLow + i + p.offset).toNat byte
  .ok { p with mrList := mrList }

/-- One word of a record for configuration memory; padding follows it. -/
def configWord (chip : ChipType) (fileBuffer : List Char) (address : ℕ) (mrList : List MemoryRow) (k : ℕ) :
    Except Failure (List MemoryRow) :=
  match getMemoryRow chip address mrList with
  | none => .error .fault
  | some (row, mrList) => do
    let first ← twoDigits fileBuffer (9 + 8 * k)
    let mrList ← store mrList row 0 first
    let second ← twoDigits fileBuffer (11 + 8 * k)
    store mrList row 1 second

/-- One line; the file ends with it if the first component says so. -/
def Reader.line (chip : ChipType) (r : Reader) (text : List Char) : Except Failure (Bool × Reader) :=
  let fileBuffer := text ++ '\x00' :: r.fileBuffer.drop (text.length + 1)
  let lineNo := r.lineNo + 1
  let r := { r with fileBuffer := fileBuffer, lineNo := lineNo }
  if fileBuffer[0]? ≠ some ':' then .error (.errExit s!"invalid hex file (line {lineNo})")
  else
    let identWord := strtoul (cString ((fileBuffer.set 9 '\x00').drop 1))
    let recLen := identWord / 2 ^ 24 % 0x100
    let addressLow := identWord / 2 ^ 8 % 0x10000
    let address := r.addressHigh * 2 ^ 16 + addressLow
    match identWord % 0x100 with
    | 0x01 => .ok (true, r)
    | 0x04 =>
      if recLen ≠ 2 ∨ addressLow ≠ 0 then .error (.errExit s!"invalid hex file (line {lineNo})")
      else
        let fileBuffer := fileBuffer.set 13 '\x00'
        .ok (false, { r with fileBuffer := fileBuffer, addressHigh := strtoul (cString (fileBuffer.drop 9)) % 0x10000 })
    | 0x00 =>
      if r.addressHigh = 0x00F8 then do
        let mrList ← (List.range ((recLen + 3) / 4)).foldlM (configWord chip fileBuffer address) r.mrList
        .ok (false, { r with mrList := mrList })
      else
        match getMemoryRow chip address r.mrList with
        | none => .error (.errExit s!"hex file line {lineNo} refers to unimplemented memory")
        | some (row, mrList) => do
          let start := (addressLow + 0x10000 - 2 * (row % 0x10000) % 0x10000) % 0x10000
          let p ← (List.range recLen).foldlM (Place.byte chip fileBuffer) { mrList := mrList, row := row, addressLow := start, offset := 0 }
          .ok (false, { r with mrList := p.mrList })
    | _ => .error (.errExit s!"unknown record type on line {lineNo} of hex file")

def Reader.lines (chip : ChipType) (r : Reader) : List (List Char) → Except Failure (List MemoryRow)
  | [] => .ok r.mrList
  | text :: rest => do
    let (ended, r) ← r.line chip text
    if ended then .ok r.mrList else r.lines chip rest

/-- `ReadHexFile`, into an empty list of rows. `memory` is what the buffer holds at the start. -/
def readHexFile (chip : ChipType) (memory : List Char) (file : List Char) : Except Failure (List MemoryRow) :=
  Reader.lines chip { addressHigh := 0, fileBuffer := memory, mrList := [], lineNo := 0 } (CStrings.lines 99 file)

/-! ### Written files -/

def writeELARecord (address : UInt32) : List Char :=
  let address : UInt32 := (address >>> 15) &&& (0xFFFF : UInt32)
  let low : UInt32 := address &&& (0xFF : UInt32)
  let high : UInt32 := (address &&& (0xFF00 : UInt32)) >>> 8
  let checkSum : UInt32 := 1 + ~~~(0x02 + 0x04 + low + high)
  ":02000004".toList ++ hex 4 address.toNat ++ hex 2 checkSum.toUInt8.toNat ++ ['\n']

def writeDataRecord (adrsLow : UInt16) (buffer : List UInt8) : List Char :=
  let adrsLow : UInt16 := adrsLow * 2
  let low : UInt16 := adrsLow &&& (0xFF : UInt16)
  let high : UInt16 := (adrsLow &&& (0xFF00 : UInt16)) >>> 8
  let start : UInt16 := 0x10 + low + high
  let checkSum : UInt8 := 1 + ~~~(buffer.foldl (· + ·) start.toUInt8)
  ":10".toList ++ hex 4 adrsLow.toNat ++ "00".toList ++ buffer.flatMap (fun byte => hex 2 byte.toNat) ++ hex 2 checkSum.toNat ++ ['\n']

def writeEOFRecord : List Char := ":00000001FF\n".toList

end Tortuga.HexFiles
