import Tortuga.SensorApi
import Tortuga.Termination

/-!
The driver of the DVL (`dvlapi.c`): a frame is looked for on a serial line and read into a
buffer of 512 bytes, by reads that may be short, empty, or fail.
-/
namespace Tortuga.Dvl
open Tortuga.Programs Tortuga.Programs.Prog Tortuga.BusCodes Tortuga.Termination
open Tortuga.SensorApi (Buf store)
set_option linter.unusedSimpArgs false

abbrev syncFailBytecount : ℕ := 2000
abbrev errNosync : Int := 0x0001
abbrev errChksum : Int := 0x0006

/-- `sizeof(dvlData)`. -/
abbrev bufSize : ℕ := 512

/-! ### The driver -/

/-- The result of a `read`. A read that fails leaves its variable as it was; `left` is what
    an unset variable holds. -/
inductive Answer where
  | failed (left : Byte)
  | got (bytes : List Byte)
  deriving DecidableEq, Repr

inductive Op where
  | read (nbytes : ℕ)
  deriving DecidableEq, Repr

abbrev Ans : Op → Type
  | .read _ => Answer

/-- The loops that wait for bytes. -/
inductive Loop where
  | waitByte
  | header
  | body
  | checksum
  deriving DecidableEq, Repr

abbrev Driver := Prog Op Ans Loop

def dvlConvert16 (msb lsb : Byte) : BitVec 16 := msb.setWidth 16 <<< 8 ||| lsb.setWidth 16

/-- `rxb`, once the read has given a byte or failed. -/
def rxb : Answer → Unit ⊕ Byte
  | .failed left => .inr left
  | .got (b :: _) => .inr b
  | .got [] => .inl ()

def dvlWaitByte : Driver Byte := .loop .waitByte () (fun _ => .ask (.read 1) fun answer => .ret (rxb answer)) .ret

/-- The loop of `dvl_waitSync`, with `left` attempts to go. -/
def attempts : ℕ → Driver Int
  | 0 => return -1
  | left + 1 => do
    if (← dvlWaitByte) = 0x7D#8 then
      if (← dvlWaitByte) = 0x00#8 then return 0
      else attempts left
    else attempts left

def dvlWaitSync : Driver Int := attempts syncFailBytecount

/-- `read(fd, dvlData + len, nbytes)`: its result and the buffer. A byte outside the buffer
    must not be written. -/
def readTo (dvlData : Buf) (len nbytes : Int) : Driver (Int × Buf) :=
  .ask (.read nbytes.toNat) fun
    | .failed _ => .ret (-1, dvlData)
    | .got [] => .ret (0, dvlData)
    | .got bytes =>
      if 0 ≤ len ∧ len + bytes.length ≤ bufSize then .ret (bytes.length, store dvlData len.toNat bytes) else .fault

/-- `while(len < target) len+= read(fd, dvlData + len, request - len)`. -/
def fill (l : Loop) (target request len : Int) (dvlData : Buf) : Driver (Int × Buf) :=
  .loop l (len, dvlData) (fun x =>
    if x.1 < target then do
      let r ← readTo x.2 x.1 (request - x.1)
      return .inl (x.1 + r.1, r.2)
    else return .inr x) .ret

/-- What a frame says about the vehicle. -/
structure Measurement where
  xvelBtm : Int
  yvelBtm : Int
  zvelBtm : Int
  evelBtm : Int
  beam1Range : BitVec 16
  beam2Range : BitVec 16
  beam3Range : BitVec 16
  beam4Range : BitVec 16
  tofpHundreths : BitVec 32
  deriving DecidableEq, Repr

structure RawDVLData where
  valid : BitVec 32
  measurement : Measurement
  deriving DecidableEq, Repr

/-- `dvl_convert16(dvlData[i + 1], dvlData[i])`. -/
def word (dvlData : Buf) (i : ℕ) : BitVec 16 := dvlConvert16 (dvlData (i + 1)) (dvlData i)

/-- The assignments of `readDVLData` from a frame with a good checksum. -/
def measure (dvlData : Buf) : Measurement where
  xvelBtm := (word dvlData 5).toInt
  yvelBtm := (word dvlData 7).toInt
  zvelBtm := (word dvlData 9).toInt
  evelBtm := (word dvlData 11).toInt
  beam1Range := word dvlData 13
  beam2Range := word dvlData 15
  beam3Range := word dvlData 17
  beam4Range := word dvlData 19
  tofpHundreths := (((dvlData 35).setWidth 32 * 60 + (dvlData 36).setWidth 32) * 60 + (dvlData 37).setWidth 32) * 100 +
    (dvlData 38).setWidth 32

/-- The sum of the first `len` bytes, in sixteen bits. -/
def sum (dvlData : Buf) (len : ℕ) : BitVec 16 :=
  ((List.range len).map dvlData).foldl (fun checksum b => checksum + b.setWidth 16) 0

/-- The result, what `dvl` points to, and the frame buffer. -/
structure Outcome where
  result : Int
  dvl : RawDVLData
  dvlData : Buf

/-- `stack` is what the buffer holds before anything is written to it. -/
def readDVLData (stack : Buf) (dvl : RawDVLData) : Driver Outcome := do
  if (← dvlWaitSync) ≠ 0 then return ⟨errNosync, { dvl with valid := BitVec.ofInt 32 errNosync }, stack⟩
  else
    let dvlData := store stack 0 [0x7D#8, 0#8]
    let (len, dvlData) ← fill .header 4 6 2 dvlData
    let tempsize : Int := (word dvlData 2).toNat
    let (len, dvlData) ← fill .body tempsize tempsize len dvlData
    let checksum := sum dvlData len.toNat
    let (_, dvlData) ← fill .checksum (tempsize + 2) (tempsize + 2) len dvlData
    if checksum ≠ word dvlData 45 then
      return ⟨errChksum, { dvl with valid := BitVec.ofInt 32 errChksum }, dvlData⟩
    else return ⟨0, ⟨1, measure dvlData⟩, dvlData⟩

/-! ### The line -/

/-- What a read that does not come back empty does: it fails, or it gives up to `more + 1`
    bytes of those asked for. -/
inductive Reply where
  | failed (left : Byte)
  | gives (more : ℕ)
  deriving DecidableEq, Repr

/-- The bytes on the line, the replies to the reads, and how many reads come back empty
    before each reply, or that all do from then on. -/
structure Line where
  bytes : ℕ → Byte
  replies : ℕ → Reply
  empty : ℕ → Option ℕ

/-- The replies that have come, the empty reads since, and the bytes that have come. -/
structure Fd where
  replied : ℕ
  waited : ℕ
  pos : ℕ
  deriving DecidableEq, Repr

def opened : Fd := ⟨0, 0, 0⟩

variable (line : Line)

/-- The next read comes back empty. -/
def Line.quiet (fd : Fd) : Bool := (line.empty fd.replied).elim true fun k => fd.waited < k

def Line.serve (fd : Fd) : (o : Op) → Ans o × Fd
  | .read nbytes =>
    if line.quiet fd then (.got [], { fd with waited := fd.waited + 1 })
    else match line.replies fd.replied with
      | .failed left => (.failed left, ⟨fd.replied + 1, 0, fd.pos⟩)
      | .gives more =>
        let count := min (more + 1) nbytes
        (.got ((List.range count).map fun i => line.bytes (fd.pos + i)), ⟨fd.replied + 1, 0, fd.pos + count⟩)

end Tortuga.Dvl
