import Mathlib.Data.Rat.Floor
import Tortuga.LittleEndian

/-!
Raw video files: what the recorder writes (`RawFileRecorder.cpp`) and how the camera reads it again
(`RawFileCamera.cpp`). Times are rational numbers, and `double` says what the 64 bits of a frame rate mean.
-/
namespace Tortuga.RawVideo
open Tortuga.BusCodes Tortuga.LittleEndian
set_option linter.unusedSimpArgs false

/-! ### The file -/

/-- `MAGIC_NUMBER`. -/
abbrev magicNumber : BitVec 32 := 0xC1A55AC5

/-- `RMV_VERSION`. -/
abbrev rmvVersion : BitVec 32 := 2

/-- `Image::PF_BGR_8`. -/
abbrev bgr8 : BitVec 32 := 2

/-- `sizeof(Header)`. -/
abbrev headerSize : ℕ := 48

/-- `sizeof(Packet)`. -/
abbrev packetHeaderSize : ℕ := 32

/-- `RawFileRecorder::Header`. The fields for expansion are zero. -/
structure Header where
  magicNumber : BitVec 32
  versionNumber : BitVec 32
  width : BitVec 32
  height : BitVec 32
  packetSize : BitVec 32
  format : BitVec 32
  framerate : BitVec 64

/-- `RawFileRecorder::Packet`. The fields for expansion are never set: they hold what was in memory. -/
structure Packet where
  magicNumber : BitVec 32
  lastPacketSize : BitVec 32
  framenum : BitVec 32
  dataSize : BitVec 32
  unused : BitVec 128

def Header.bytes (h : Header) : List Byte :=
  LittleEndian.bytes 4 h.magicNumber.toNat ++ LittleEndian.bytes 4 h.versionNumber.toNat ++ LittleEndian.bytes 4 h.width.toNat ++
    LittleEndian.bytes 4 h.height.toNat ++ LittleEndian.bytes 4 h.packetSize.toNat ++ LittleEndian.bytes 4 h.format.toNat ++
    LittleEndian.bytes 8 h.framerate.toNat ++ LittleEndian.bytes 16 0

def Header.read (l : List Byte) : Header where
  magicNumber := .ofNat 32 (field 0 4 l)
  versionNumber := .ofNat 32 (field 4 4 l)
  width := .ofNat 32 (field 8 4 l)
  height := .ofNat 32 (field 12 4 l)
  packetSize := .ofNat 32 (field 16 4 l)
  format := .ofNat 32 (field 20 4 l)
  framerate := .ofNat 64 (field 24 8 l)

def Packet.bytes (p : Packet) : List Byte :=
  LittleEndian.bytes 4 p.magicNumber.toNat ++ LittleEndian.bytes 4 p.lastPacketSize.toNat ++ LittleEndian.bytes 4 p.framenum.toNat ++
    LittleEndian.bytes 4 p.dataSize.toNat ++ LittleEndian.bytes 16 p.unused.toNat

def Packet.read (l : List Byte) : Packet where
  magicNumber := .ofNat 32 (field 0 4 l)
  lastPacketSize := .ofNat 32 (field 4 4 l)
  framenum := .ofNat 32 (field 8 4 l)
  dataSize := .ofNat 32 (field 12 4 l)
  unused := .ofNat 128 (field 16 16 l)

/-! ### The recorder -/

structure RawFileRecorder where
  framenum : BitVec 32
  lastPacketSizeWritten : BitVec 32
  file : List Byte

/-- The constructor writes the header. -/
def RawFileRecorder.new (width height : ℕ) (framerate : BitVec 64) : RawFileRecorder where
  framenum := 0
  lastPacketSizeWritten := 0
  file := Header.bytes {
    magicNumber
    versionNumber := rmvVersion
    width := .ofNat 32 width
    height := .ofNat 32 height
    packetSize := .ofNat 32 (width * height * 3 + packetHeaderSize)
    format := bgr8
    framerate }

/-- An image of the size of the recording, as `Recorder::update` makes it, and what is in memory where its packet goes. -/
structure Frame (width height : ℕ) where
  data : List Byte
  unused : BitVec 128
  size : data.length = width * height * 3

def RawFileRecorder.recordFrame {width height : ℕ} (r : RawFileRecorder) (image : Frame width height) : RawFileRecorder :=
  let packet : Packet := {
    magicNumber
    lastPacketSize := r.lastPacketSizeWritten
    framenum := r.framenum
    dataSize := .ofNat 32 (width * height * 3)
    unused := image.unused }
  { framenum := r.framenum + 1
    lastPacketSizeWritten := .ofNat 32 packetHeaderSize + packet.dataSize
    file := r.file ++ packet.bytes ++ image.data.take packet.dataSize.toNat }

/-! ### The camera -/

/-- The file of a camera, and what its constructor has read of it. -/
structure Video where
  file : List Byte
  width : BitVec 32
  height : BitVec 32
  fps : ℚ
  duration : ℚ
  fileSize : ℤ

/-- The members of a camera that change, and the offset in its file. -/
structure RawFileCamera where
  currentTime : ℚ
  currentFrame : ℤ
  dataBuffer : List Byte
  dataBufferSize : ℕ
  position : ℕ

/-- A number of bytes as an `int`. -/
def toInt (n : ℤ) : ℤ := n.bmod (2 ^ 32)

/-- `(int)` of a number. -/
def truncate (x : ℚ) : ℤ := if 0 ≤ x then ⌊x⌋ else ⌈x⌉

/-- The constructor, unless an assertion fails. `memory` is what is in the new buffer. -/
def openVideo (double : BitVec 64 → ℚ) (memory file : List Byte) : Option (Video × RawFileCamera) :=
  let header := Header.read file
  if file.length < headerSize then none
  else if header.magicNumber ≠ magicNumber then none
  else if header.versionNumber ≠ rmvVersion then none
  else if toInt file.length ≤ -1 then none
  else
    let fps := double header.framerate
    let packetCount := ((toInt file.length).toNat - headerSize) / header.packetSize.toNat
    some (
      { file, width := header.width, height := header.height, fps, duration := packetCount / fps, fileSize := toInt file.length },
      { currentTime := 0, currentFrame := 0, dataBuffer := memory, dataBufferSize := header.packetSize.toNat, position := headerSize })

/-- Jumps to a frame, as long as `lseek` returns the offset it was given. -/
def RawFileCamera.seekTo (c : RawFileCamera) (frame : ℤ) : Option RawFileCamera :=
  let fileOffset := toInt (headerSize + c.dataBufferSize * max frame 0)
  if 0 ≤ fileOffset then some { c with position := fileOffset.toNat }
  else if fileOffset = -1 then some c
  else none

namespace Video
variable (v : Video)

/-- The next frame is read, or skipped in a hurry. Without an assertion that fails there is a result. -/
def readNextFrame (hurryUp : Bool) (c : RawFileCamera) : Option RawFileCamera :=
  if v.fileSize = c.position then some c
  else if v.file.length < c.position + packetHeaderSize then none
  else
    let packet := Packet.read (v.file.drop c.position)
    if packet.magicNumber ≠ magicNumber then none
    else
      let currentFrame := packet.framenum.toInt
      let small := c.dataBufferSize < packet.dataSize.toNat + packetHeaderSize
      let dataBuffer := if small then [] else c.dataBuffer
      let position := c.position + packetHeaderSize
      let data := if hurryUp then [] else (v.file.drop position).take packet.dataSize.toInt.toNat
      some {
        currentTime := currentFrame / v.fps
        currentFrame
        dataBuffer := data ++ dataBuffer.drop data.length
        dataBufferSize := if small then packet.dataSize.toNat + packetHeaderSize else c.dataBufferSize
        position := position + if hurryUp then packet.dataSize.toNat else data.length }

variable {v} in
/-- A frame that is read moves the offset. -/
theorem readNextFrame_position {hurryUp : Bool} {c c' : RawFileCamera} (read : v.readNextFrame hurryUp c = some c') :
    c' = c ∨ c.position + packetHeaderSize ≤ v.file.length ∧ c.position + packetHeaderSize ≤ c'.position := by
  rw [readNextFrame] at read
  by_cases last : v.fileSize = c.position
  · rw [if_pos last] at read
    exact .inl (Option.some_inj.mp read).symm
  · rw [if_neg last] at read
    split at read
    · cases read
    · rename_i short
      dsimp only at read
      split at read
      · cases read
      · obtain rfl := Option.some_inj.mp read
        exact .inr ⟨not_lt.mp short, Nat.le_add_right _ _⟩

/-- "Read frames until we get to the right place." -/
def readUntil (seconds lastTime : ℚ) (c : RawFileCamera) : Option RawFileCamera :=
  match _read : v.readNextFrame true c with
  | none => none
  | some c' => if _more : c'.currentTime < seconds ∧ c.currentTime ≠ lastTime then readUntil seconds c.currentTime c' else some c'
termination_by (v.file.length - c.position, if c.currentTime = lastTime then 0 else 1)
decreasing_by
  rcases readNextFrame_position _read with rfl | ⟨inside, later⟩
  · rw [if_pos rfl, if_neg _more.2]
    exact Prod.Lex.right _ Nat.zero_lt_one
  · refine Prod.Lex.left _ _ ?_
    simp only [packetHeaderSize] at inside later
    omega

def seekToTime (seconds : ℚ) (c : RawFileCamera) : Option RawFileCamera :=
  (c.seekTo (truncate (seconds * v.fps) - 1)).bind (v.readUntil seconds (-1))

/-- The image that an update makes public. -/
def image (c : RawFileCamera) : List Byte := c.dataBuffer.take (v.width.toNat * v.height.toNat * 3)

/-- `update`: the next frame is read, and made public. -/
def update (c : RawFileCamera) : Option RawFileCamera := v.readNextFrame false c

end Video

/-- A call from outside. -/
inductive Call
  | seekToTime (seconds : ℚ)
  | update

def Video.call (v : Video) (c : RawFileCamera) : Call → Option RawFileCamera
  | .seekToTime seconds => v.seekToTime seconds c
  | .update => v.update c

/-- The calls, each with the camera before it. -/
def Video.calls (v : Video) (c : RawFileCamera) : List Call → List (RawFileCamera × Call)
  | [] => []
  | call :: rest => (c, call) :: ((v.call c call).elim [] fun c' => v.calls c' rest)

/-- The images that so many updates make public. -/
def Video.play (v : Video) : ℕ → RawFileCamera → Option (List (List Byte))
  | 0, _ => some []
  | n + 1, c => (v.update c).bind fun c' => (v.play n c').map (v.image c' :: ·)

end Tortuga.RawVideo
