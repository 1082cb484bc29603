import Mathlib.Algebra.Order.Field.Basic
import Mathlib.Data.List.Induction
import Mathlib.Tactic.Linarith
import Mathlib.Tactic.NormNum
import Tortuga.RawVideo

/-!
Recordings and the camera that plays them: from the start it reads the recorded frames in order, and a seek ends at
the first frame that is not before its time, unless the camera is at the frame at which the seek starts.
-/
namespace Tortuga.RawVideoSeeks
open Tortuga.BusCodes Tortuga.LittleEndian Tortuga.RawVideo
set_option linter.unusedSimpArgs false

/-- What a recorder is given: the size of its images, the frame rate and the images. -/
structure Recording (double : BitVec 64 → ℚ) where
  width : ℕ
  height : ℕ
  framerate : BitVec 64
  frames : List (Frame width height)
  wide : 0 < width
  high : 0 < height
  rate : 0 < double framerate

namespace Recording
variable {double : BitVec 64 → ℚ} (r : Recording double)

/-- What it writes. -/
def file : List Byte := (r.frames.foldl RawFileRecorder.recordFrame (.new r.width r.height r.framerate)).file

def dataSize : ℕ := r.width * r.height * 3

def packetSize : ℕ := r.dataSize + packetHeaderSize

def fps : ℚ := double r.framerate

/-- The file is shorter than 2^31 bytes, and so is a packet. -/
structure Small : Prop where
  packet : r.packetSize < 2 ^ 31
  file : r.file.length < 2 ^ 31

/-- A time with a frame that is not before it. -/
def Inside (seconds : ℚ) : Prop := 0 ≤ seconds ∧ ∃ k < r.frames.length, seconds ≤ k / r.fps

/-- The first frame that is not before a time. -/
def First (seconds : ℚ) (frame : ℤ) : Prop :=
  ∃ k : ℕ, frame = k ∧ k < r.frames.length ∧ seconds ≤ k / r.fps ∧ ∀ j < k, (j : ℚ) / r.fps < seconds

/-- The number and the offset of a frame that is sought are an `int`. -/
def Fits : Call → Prop
  | .update => True
  | .seekToTime seconds => -2 ^ 31 ≤ seconds * r.fps ∧ headerSize + r.packetSize * max (truncate (seconds * r.fps) - 1) 0 < 2 ^ 31

/-- The camera is at the frame with which a seek starts, and the time is between two frames. -/
def Behind (seconds : ℚ) (c : RawFileCamera) : Prop :=
  1 ≤ truncate (seconds * r.fps) ∧ truncate (seconds * r.fps) ≠ seconds * r.fps ∧ c.currentFrame = truncate (seconds * r.fps) - 1

/-- The camera opens the recording, plays its frames in order, and every seek inside ends at the right frame. -/
def Correct (memory : List Byte) (calls : List Call) : Prop :=
  ∃ v start, openVideo double memory r.file = some (v, start) ∧ v.play r.frames.length start = some (r.frames.map Frame.data) ∧
    ∀ x ∈ v.calls start calls, ∀ seconds, x.2 = .seekToTime seconds → r.Inside seconds →
      ∃ c, v.seekToTime seconds x.1 = some c ∧ r.First seconds c.currentFrame

/-- No seek inside starts with the frame that the camera is at. -/
def Timely (memory : List Byte) (calls : List Call) : Prop :=
  ∀ v start, openVideo double memory r.file = some (v, start) →
    ∀ x ∈ v.calls start calls, ∀ seconds, x.2 = .seekToTime seconds → r.Inside seconds → ¬ r.Behind seconds x.1

/-! ### The file -/

/-- The chunks of a file: a packet for each frame. -/
structure Chunks (frames : List (Frame r.width r.height)) (chunks : List (List Byte)) : Prop where
  count : chunks.length = frames.length
  packet : ∀ k f, frames[k]? = some f → ∃ p : Packet, chunks[k]? = some (p.bytes ++ f.data) ∧
    p.magicNumber = magicNumber ∧ p.framenum = .ofNat 32 k ∧ p.dataSize = .ofNat 32 r.dataSize

end Recording

theorem header_read (h : Header) (rest : List Byte) : Header.read (h.bytes ++ rest) = h := by
  cases h
  simp [Header.read, Header.bytes, List.append_assoc, field_append, field_zero, ofNat_number_bytes]

theorem packet_read (p : Packet) (rest : List Byte) : Packet.read (p.bytes ++ rest) = p := by
  cases p
  simp [Packet.read, Packet.bytes, List.append_assoc, field_append, field_zero, ofNat_number_bytes]

@[simp] theorem length_header (h : Header) : h.bytes.length = headerSize := by simp [Header.bytes]

@[simp] theorem length_packet (p : Packet) : p.bytes.length = packetHeaderSize := by simp [Packet.bytes]

theorem readUntil_some {v : Video} {seconds lastTime : ℚ} {c d : RawFileCamera} (read : v.readNextFrame true c = some d) :
    v.readUntil seconds lastTime c =
      if d.currentTime < seconds ∧ c.currentTime ≠ lastTime then v.readUntil seconds c.currentTime d else some d := by
  rw [Video.readUntil]
  split
  · simp_all
  · rename_i e same
    obtain rfl := Option.some_inj.mp (read.symm.trans same)
    rfl

theorem readUntil_none {v : Video} {seconds lastTime : ℚ} {c : RawFileCamera} (read : v.readNextFrame true c = none) :
    v.readUntil seconds lastTime c = none := by
  rw [Video.readUntil]
  split
  · rfl
  · simp_all

/-- The chunk at an index, if all have the same length. -/
theorem drop_flatten {α : Type} {chunks : List (List α)} {n : ℕ} (same : ∀ c ∈ chunks, c.length = n) (k : ℕ) :
    chunks.flatten.drop (n * k) = (chunks.drop k).flatten := by
  induction k generalizing chunks with
  | zero => simp
  | succ k ih =>
    cases chunks with
    | nil => simp
    | cons c rest =>
      have first := same c List.mem_cons_self
      have later := ih fun d there => same d (List.mem_cons_of_mem c there)
      rw [List.flatten_cons, List.drop_succ_cons, ← later, Nat.mul_succ, Nat.add_comm, ← List.drop_drop, List.drop_left' first]

namespace Recording
variable {double : BitVec 64 → ℚ} {r : Recording double} {c c' : RawFileCamera} {memory : List Byte} {k : ℕ} {seconds : ℚ}

/-- What the constructor of the recorder writes. -/
def header (r : Recording double) : Header where
  magicNumber := magicNumber
  versionNumber := rmvVersion
  width := .ofNat 32 r.width
  height := .ofNat 32 r.height
  packetSize := .ofNat 32 r.packetSize
  format := bgr8
  framerate := r.framerate

theorem chunks_nil : r.Chunks [] [] := ⟨rfl, fun k f none => by simp at none⟩

theorem Chunks.append {frames : List (Frame r.width r.height)} {chunks : List (List Byte)} (whole : r.Chunks frames chunks)
    (f : Frame r.width r.height) {p : Packet} (magic : p.magicNumber = magicNumber) (number : p.framenum = .ofNat 32 frames.length)
    (size : p.dataSize = .ofNat 32 r.dataSize) : r.Chunks (frames ++ [f]) (chunks ++ [p.bytes ++ f.data]) := by
  constructor
  · simp [whole.count]
  · intro k g there
    by_cases earlier : k < frames.length
    · rw [List.getElem?_append_left earlier] at there
      rw [List.getElem?_append_left (whole.count ▸ earlier)]
      exact whole.packet k g there
    · have last : k = frames.length := by
        have bound := (List.getElem?_eq_some_iff.mp there).1
        simp at bound
        omega
      subst last
      rw [List.getElem?_concat_length] at there
      obtain rfl := Option.some_inj.mp there
      refine ⟨p, ?_, magic, number, size⟩
      rw [← whole.count, List.getElem?_concat_length]

theorem toNat_dataSize (small : r.packetSize < 2 ^ 31) : (BitVec.ofNat 32 r.dataSize).toNat = r.dataSize := by
  rw [packetSize] at small
  simp only [packetHeaderSize] at small
  exact Nat.mod_eq_of_lt (by omega)

/-- The file is the header, and a chunk for each frame. -/
theorem written (small : r.packetSize < 2 ^ 31) (frames : List (Frame r.width r.height)) :
    let w := frames.foldl RawFileRecorder.recordFrame (.new r.width r.height r.framerate)
    w.framenum = .ofNat 32 frames.length ∧ ∃ chunks, r.Chunks frames chunks ∧ w.file = r.header.bytes ++ chunks.flatten := by
  induction frames using List.reverseRecOn with
  | nil => exact ⟨rfl, [], chunks_nil, by simp [RawFileRecorder.new, header, packetSize, dataSize]⟩
  | append_singleton frames f ih =>
    obtain ⟨number, chunks, whole, same⟩ := ih
    rw [List.foldl_append, List.foldl_cons, List.foldl_nil]
    generalize frames.foldl RawFileRecorder.recordFrame (.new r.width r.height r.framerate) = w at number same
    have all : f.data.take (BitVec.ofNat 32 r.dataSize).toNat = f.data := by
      rw [toNat_dataSize small]
      exact List.take_of_length_le f.size.le
    have longer := whole.append f (p := ⟨magicNumber, w.lastPacketSizeWritten, w.framenum, .ofNat 32 r.dataSize, f.unused⟩) rfl number rfl
    refine ⟨?_, _, longer, ?_⟩
    · rw [RawFileRecorder.recordFrame, number, List.length_append, List.length_singleton]
      exact (BitVec.ofNat_add _ _).symm
    · simp only [RawFileRecorder.recordFrame, List.flatten_append, List.flatten_singleton, same, List.append_assoc]
      exact congrArg (fun data => r.header.bytes ++ (chunks.flatten ++ (_ ++ data))) all

theorem Chunks.length {frames : List (Frame r.width r.height)} {chunks : List (List Byte)} (whole : r.Chunks frames chunks) :
    ∀ c ∈ chunks, c.length = r.packetSize := by
  intro c there
  obtain ⟨k, inside, rfl⟩ := List.getElem_of_mem there
  have index : k < frames.length := whole.count ▸ inside
  obtain ⟨p, same, -⟩ := whole.packet k frames[k] (List.getElem?_eq_getElem index)
  rw [List.getElem?_eq_getElem inside] at same
  rw [Option.some_inj.mp same, List.length_append, length_packet, frames[k].size, packetSize, dataSize, Nat.add_comm]

/-- What the file has at the offset of a frame. -/
theorem file_drop (small : r.Small) (inside : k < r.frames.length) : ∃ (p : Packet) (rest : List Byte),
    r.file.drop (headerSize + r.packetSize * k) = p.bytes ++ (r.frames[k].data ++ rest) ∧
      p.magicNumber = magicNumber ∧ p.framenum = .ofNat 32 k ∧ p.dataSize = .ofNat 32 r.dataSize := by
  obtain ⟨-, chunks, whole, same⟩ := written small.packet r.frames
  obtain ⟨p, chunk, magic, number, size⟩ := whole.packet k _ (List.getElem?_eq_getElem inside)
  refine ⟨p, (chunks.drop (k + 1)).flatten, ?_, magic, number, size⟩
  obtain ⟨index, chunk⟩ := List.getElem?_eq_some_iff.mp chunk
  rw [file, same, ← List.drop_drop, List.drop_left' (length_header r.header), drop_flatten whole.length, List.drop_eq_getElem_cons index,
    List.flatten_cons, chunk, List.append_assoc]

theorem file_length (small : r.packetSize < 2 ^ 31) : r.file.length = headerSize + r.packetSize * r.frames.length := by
  obtain ⟨-, chunks, whole, same⟩ := written small r.frames
  have total : chunks.flatten.length = chunks.length * r.packetSize := by
    rw [List.length_flatten, List.map_congr_left whole.length, List.map_const', List.sum_replicate, nsmul_eq_mul, Nat.cast_id]
  rw [file, same, List.length_append, length_header, total, whole.count, Nat.mul_comm]

/-! ### The camera -/

/-- The camera that has opened the recording. -/
def video (r : Recording double) : Video where
  file := r.file
  width := .ofNat 32 r.width
  height := .ofNat 32 r.height
  fps := r.fps
  duration := r.frames.length / r.fps
  fileSize := r.file.length

def start (r : Recording double) (memory : List Byte) : RawFileCamera where
  currentTime := 0
  currentFrame := 0
  dataBuffer := memory
  dataBufferSize := r.packetSize
  position := headerSize

theorem toInt_small {n : ℕ} (small : n < 2 ^ 31) : toInt n = n := Int.bmod_eq_of_le (by omega) (by omega)

theorem toInt_ofNat {n : ℕ} (small : n < 2 ^ 31) : (BitVec.ofNat 32 n).toInt = n := by
  have same : (BitVec.ofNat 32 n).toNat = n := Nat.mod_eq_of_lt (by omega)
  rw [BitVec.toInt_eq_toNat_of_lt (by omega), same]

theorem packetSize_pos (r : Recording double) : packetHeaderSize ≤ r.packetSize := Nat.le_add_left _ _

theorem openVideo_file (small : r.Small) (memory : List Byte) : openVideo double memory r.file = some (r.video, r.start memory) := by
  obtain ⟨-, chunks, whole, same⟩ := written small.packet r.frames
  have length := file_length small.packet
  have size := toInt_small small.file
  have positive := r.packetSize_pos
  have number : (BitVec.ofNat 32 r.packetSize).toNat = r.packetSize := Nat.mod_eq_of_lt (small.packet.trans (by decide))
  have read : Header.read r.file = r.header := by
    rw [file, same]
    exact header_read r.header chunks.flatten
  have long : ¬ r.file.length < headerSize := by
    rw [length]
    omega
  have count : (r.file.length - headerSize) / r.packetSize = r.frames.length := by
    rw [length, Nat.add_sub_cancel_left]
    exact Nat.mul_div_cancel_left _ (Nat.lt_of_lt_of_le (by decide) positive)
  have nonneg : ¬ ((r.file.length : ℤ) ≤ -1) := by omega
  simp only [openVideo, read, size, Int.toNat_natCast]
  simp only [header, long, number, count, nonneg, ne_eq, not_true_eq_false, if_false]
  rfl

/-- The camera when it has read a frame. -/
def read (r : Recording double) (k : ℕ) (dataBuffer : List Byte) : RawFileCamera where
  currentTime := (k : ℚ) / r.fps
  currentFrame := k
  dataBuffer
  dataBufferSize := r.packetSize
  position := headerSize + r.packetSize * (k + 1)

/-- The chunk of a frame is in the file. -/
theorem room (small : r.Small) (inside : k < r.frames.length) : headerSize + r.packetSize * (k + 1) ≤ r.file.length := by
  rw [file_length small.packet]
  exact Nat.add_le_add_left (Nat.mul_le_mul_left r.packetSize inside) headerSize

/-- The packet and the data of a frame, as the camera reads them. -/
theorem packet_inside (small : r.Small) (inside : k < r.frames.length) :
    let p := Packet.read (r.file.drop (headerSize + r.packetSize * k))
    p.magicNumber = magicNumber ∧ p.framenum.toInt = k ∧ p.dataSize.toNat = r.dataSize ∧ p.dataSize.toInt.toNat = r.dataSize ∧
      (r.file.drop (headerSize + r.packetSize * k + packetHeaderSize)).take r.dataSize = r.frames[k].data := by
  obtain ⟨p, rest, drop, magic, number, bytes⟩ := file_drop small inside
  have all : r.frames[k].data.length = r.dataSize := r.frames[k].size
  have few : k ≤ r.packetSize * k := Nat.le_mul_of_pos_left k (Nat.lt_of_lt_of_le (by decide) r.packetSize_pos)
  have next := (room small inside).trans_lt small.file
  have packet := small.packet
  rw [Nat.mul_succ] at next
  rw [packetSize] at packet
  rw [drop, packet_read]
  dsimp only
  rw [magic, number, bytes, ← List.drop_drop, drop, List.drop_left' (length_packet p), List.take_left' all]
  refine ⟨rfl, toInt_ofNat (by omega), toNat_dataSize small.packet, ?_, rfl⟩
  rw [toInt_ofNat (by omega), Int.toNat_natCast]

theorem readNextFrame_inside (small : r.Small) (hurryUp : Bool) (inside : k < r.frames.length)
    (place : c.position = headerSize + r.packetSize * k) (size : c.dataBufferSize = r.packetSize) :
    r.video.readNextFrame hurryUp c =
      some (r.read k (if hurryUp then c.dataBuffer else r.frames[k].data ++ c.dataBuffer.drop r.dataSize)) := by
  obtain ⟨magic, frame, data, signed, image⟩ := packet_inside small inside
  have all : r.frames[k].data.length = r.dataSize := r.frames[k].size
  have after : c.position + packetHeaderSize + r.dataSize = headerSize + r.packetSize * (k + 1) := by
    rw [place, Nat.mul_succ, packetSize]
    omega
  have next := room small inside
  have more : r.file.length ≠ c.position := by
    simp only [packetHeaderSize] at after
    omega
  have long : ¬ r.file.length < c.position + packetHeaderSize := by omega
  have large : ¬ r.packetSize < r.dataSize + packetHeaderSize := Nat.lt_irrefl _
  rw [← place] at magic frame data signed image
  cases hurryUp with
  | true =>
    simp only [Video.readNextFrame, video, magic, frame, data, size, large, if_false, if_true, ne_eq, not_true_eq_false, read]
    simp [more, long, after]
  | false =>
    simp only [Video.readNextFrame, video, magic, frame, data, signed, size, large, image, if_false, ne_eq, not_true_eq_false, read]
    simp [more, long, all, image, after]

theorem readNextFrame_end (small : r.Small) (hurryUp : Bool) (place : c.position = headerSize + r.packetSize * r.frames.length) :
    r.video.readNextFrame hurryUp c = some c := by
  have last : r.video.fileSize = c.position := by
    rw [place, ← file_length small.packet]
    rfl
  rw [Video.readNextFrame, if_pos last]

theorem readNextFrame_past (small : r.Small) (hurryUp : Bool) (place : c.position = headerSize + r.packetSize * k)
    (past : r.frames.length < k) : r.video.readNextFrame hurryUp c = none := by
  have positive := r.packetSize_pos
  have length := file_length small.packet
  have next : r.packetSize * r.frames.length + r.packetSize ≤ r.packetSize * k := Nat.mul_le_mul_left r.packetSize past
  simp only [packetHeaderSize] at positive
  have more : r.video.fileSize ≠ c.position := by
    rw [place]
    simp only [video, length, headerSize]
    omega
  have short : r.video.file.length < c.position + packetHeaderSize := by
    rw [place]
    simp only [video, length, headerSize, packetHeaderSize]
    omega
  rw [Video.readNextFrame, if_neg more, if_pos short]

/-- What holds between two calls. -/
structure Steady (r : Recording double) (c : RawFileCamera) : Prop where
  size : c.dataBufferSize = r.packetSize
  time : c.currentTime = c.currentFrame / r.fps
  nonneg : 0 ≤ c.currentFrame
  place : ∃ k, c.position = headerSize + r.packetSize * k

theorem steady_start (r : Recording double) (memory : List Byte) : r.Steady (r.start memory) where
  size := rfl
  time := by simp [start]
  nonneg := le_rfl
  place := ⟨0, by simp [start]⟩

theorem steady_read (r : Recording double) (k : ℕ) (dataBuffer : List Byte) : r.Steady (r.read k dataBuffer) where
  size := rfl
  time := by simp [read]
  nonneg := Int.natCast_nonneg k
  place := ⟨k + 1, rfl⟩

theorem Steady.readNextFrame (steady : r.Steady c) (small : r.Small) {hurryUp : Bool}
    (reads : r.video.readNextFrame hurryUp c = some c') : r.Steady c' := by
  obtain ⟨k, place⟩ := steady.place
  rcases lt_trichotomy k r.frames.length with inside | rfl | past
  · rw [readNextFrame_inside small hurryUp inside place steady.size] at reads
    obtain rfl := Option.some_inj.mp reads
    exact r.steady_read k _
  · rw [readNextFrame_end small hurryUp place] at reads
    obtain rfl := Option.some_inj.mp reads
    exact steady
  · rw [readNextFrame_past small hurryUp place past] at reads
    cases reads

theorem Steady.readUntil (steady : r.Steady c) (small : r.Small) {lastTime : ℚ}
    (reads : r.video.readUntil seconds lastTime c = some c') : r.Steady c' := by
  induction lastTime, c using Video.readUntil.induct r.video seconds with
  | case1 lastTime c none =>
    rw [readUntil_none none] at reads
    cases reads
  | case2 lastTime c d read more ih =>
    rw [readUntil_some read, if_pos more] at reads
    exact ih (steady.readNextFrame small read) reads
  | case3 lastTime c d read more =>
    rw [readUntil_some read, if_neg more] at reads
    obtain rfl := Option.some_inj.mp reads
    exact steady.readNextFrame small read

theorem Steady.seekTo (steady : r.Steady c) {frame : ℤ} (fits : headerSize + r.packetSize * max frame 0 < 2 ^ 31) :
    c.seekTo frame = some { c with position := headerSize + r.packetSize * frame.toNat } := by
  have nonneg : (0 : ℤ) ≤ r.packetSize * max frame 0 := Int.mul_nonneg (Int.natCast_nonneg _) (Int.le_max_right _ _)
  have same : toInt (headerSize + c.dataBufferSize * max frame 0) = (headerSize + r.packetSize * frame.toNat : ℕ) := by
    rw [steady.size, toInt, Int.bmod_eq_of_le (by omega) (by omega)]
    push_cast
    rw [Int.toNat_eq_max]
  rw [RawFileCamera.seekTo, same, if_pos (Int.natCast_nonneg _), Int.toNat_natCast]

theorem Steady.seek (steady : r.Steady c) (k : ℕ) : r.Steady { c with position := headerSize + r.packetSize * k } where
  size := steady.size
  time := steady.time
  nonneg := steady.nonneg
  place := ⟨k, rfl⟩

theorem Steady.seekToTime (steady : r.Steady c) (fits : r.Fits (.seekToTime seconds)) : r.video.seekToTime seconds c =
    r.video.readUntil seconds (-1) { c with position := headerSize + r.packetSize * (truncate (seconds * r.fps) - 1).toNat } := by
  have same : r.video.fps = r.fps := rfl
  rw [Video.seekToTime, same, steady.seekTo fits.2, Option.bind_some]

theorem Steady.call (steady : r.Steady c) (small : r.Small) {call : Call} (fits : r.Fits call) (done : r.video.call c call = some c') :
    r.Steady c' := by
  cases call with
  | update => exact steady.readNextFrame small done
  | seekToTime seconds =>
    rw [Video.call, steady.seekToTime fits] at done
    exact (steady.seek _).readUntil small done

/-- Every call finds a camera in order. -/
theorem Steady.calls (steady : r.Steady c) (small : r.Small) {calls : List Call} (fits : ∀ call ∈ calls, r.Fits call) :
    ∀ x ∈ r.video.calls c calls, r.Steady x.1 := by
  induction calls generalizing c with
  | nil => simp [Video.calls]
  | cons call rest ih =>
    intro x there
    rw [Video.calls] at there
    rcases List.mem_cons.mp there with rfl | later
    · exact steady
    · cases done : r.video.call c call with
      | none => simp [done] at later
      | some d =>
        rw [done] at later
        have next := steady.call small (fits call List.mem_cons_self) done
        exact ih next (fun call there => fits call (List.mem_cons_of_mem _ there)) x later

/-! ### Where a seek ends -/

theorem before_iff (r : Recording double) (k : ℕ) : (k : ℚ) / r.fps < seconds ↔ (k : ℚ) < seconds * r.fps := div_lt_iff₀ r.rate

/-- The number of the last frame that is not after a time inside. -/
theorem exists_floor (inside : r.Inside seconds) : ∃ n : ℕ, truncate (seconds * r.fps) = n ∧ n ≤ seconds * r.fps ∧ seconds * r.fps < n + 1 ∧
    n < r.frames.length ∧ (n < seconds * r.fps → n + 1 < r.frames.length) := by
  obtain ⟨nonneg, k, bound, below⟩ := inside
  have product : 0 ≤ seconds * r.fps := mul_nonneg nonneg r.rate.le
  have least : seconds * r.fps ≤ k := (le_div_iff₀ r.rate).mp below
  obtain ⟨n, same⟩ := Int.eq_ofNat_of_zero_le (Int.floor_nonneg.mpr product)
  have low := Int.floor_le (seconds * r.fps)
  have high := Int.lt_floor_add_one (seconds * r.fps)
  rw [same] at low high
  push_cast at low high
  refine ⟨n, ?_, low, high, ?_, fun less => ?_⟩
  · rw [truncate, if_pos product, same]
  · have le : (n : ℚ) ≤ k := low.trans least
    exact (Nat.cast_le.mp le).trans_lt bound
  · have lt : (n : ℚ) < k := less.trans_le least
    exact Nat.lt_of_le_of_lt (Nat.succ_le_of_lt (Nat.cast_lt.mp lt)) bound

theorem fits_inside (small : r.Small) (inside : r.Inside seconds) : r.Fits (.seekToTime seconds) := by
  obtain ⟨n, same, low, -, bound, -⟩ := exists_floor inside
  have product : 0 ≤ seconds * r.fps := mul_nonneg inside.1 r.rate.le
  have length := file_length small.packet
  have short := small.file
  have within : r.packetSize * (n - 1) ≤ r.packetSize * r.frames.length := Nat.mul_le_mul_left _ (by omega)
  refine ⟨by linarith, ?_⟩
  have first : max ((n : ℤ) - 1) 0 = ((n - 1 : ℕ) : ℤ) := by omega
  rw [same, first]
  have whole : headerSize + r.packetSize * (n - 1) < 2 ^ 31 := by omega
  exact_mod_cast whole

theorem readNextFrame_read (small : r.Small) (inside : k + 1 < r.frames.length) (dataBuffer : List Byte) :
    r.video.readNextFrame true (r.read k dataBuffer) = some (r.read (k + 1) dataBuffer) :=
  readNextFrame_inside small true inside rfl rfl

/-- A frame that is before the time is left behind, unless the loop has seen its time twice. -/
theorem readUntil_read (small : r.Small) (inside : k + 1 < r.frames.length) (dataBuffer : List Byte) (seconds lastTime : ℚ) :
    r.video.readUntil seconds lastTime (r.read k dataBuffer) =
      if ((k + 1 : ℕ) : ℚ) < seconds * r.fps ∧ (k : ℚ) / r.fps ≠ lastTime then r.video.readUntil seconds (k / r.fps) (r.read (k + 1) dataBuffer)
      else some (r.read (k + 1) dataBuffer) := by
  rw [readUntil_some (readNextFrame_read small inside dataBuffer)]
  simp only [read, before_iff]

/-- The first frame of a seek. -/
theorem Steady.readUntil_seek (steady : r.Steady c) (small : r.Small) (inside : k < r.frames.length) (seconds : ℚ) :
    r.video.readUntil seconds (-1) { c with position := headerSize + r.packetSize * k } =
      if (k : ℚ) < seconds * r.fps then r.video.readUntil seconds c.currentTime (r.read k c.dataBuffer) else some (r.read k c.dataBuffer) := by
  have reads := readNextFrame_inside (c := { c with position := headerSize + r.packetSize * k }) small true inside rfl steady.size
  have nonneg : (0 : ℚ) ≤ c.currentFrame / r.fps := div_nonneg (Int.cast_nonneg steady.nonneg) r.rate.le
  have other : c.currentTime ≠ -1 := by
    rw [steady.time]
    linarith
  rw [readUntil_some reads]
  simp only [read, before_iff, other, ne_eq, not_false_eq_true, and_true, if_true]

theorem first_of (inside : k < r.frames.length) (least : seconds * r.fps ≤ k) (before : ∀ j < k, (j : ℚ) < seconds * r.fps) :
    r.First seconds k :=
  ⟨k, rfl, inside, (le_div_iff₀ r.rate).mpr least, fun j less => (r.before_iff j).mpr (before j less)⟩

theorem not_first (less : k < seconds * r.fps) : ¬ r.First seconds k := by
  rintro ⟨n, same, -, least, -⟩
  have equal : k = n := Int.ofNat_inj.mp same
  have high : seconds * r.fps ≤ n := (le_div_iff₀ r.rate).mp least
  rw [equal] at less
  linarith

/-- A camera at the time of a frame is at the frame. -/
theorem Steady.frame_iff (steady : r.Steady c) (k : ℕ) : (k : ℚ) / r.fps = c.currentTime ↔ c.currentFrame = k := by
  have positive : r.fps ≠ 0 := ne_of_gt r.rate
  rw [steady.time, div_left_inj' positive]
  exact ⟨fun same => by exact_mod_cast same.symm, fun same => by rw [same]; rfl⟩

/-- A seek from the first frame ends at the right frame. -/
theorem Steady.sought_first (steady : r.Steady c) (small : r.Small) (bound : 0 < r.frames.length) (high : seconds * r.fps < 1)
    (next : 0 < seconds * r.fps → 1 < r.frames.length) :
    ∃ k : ℕ, r.video.readUntil seconds (-1) { c with position := headerSize + r.packetSize * 0 } = some (r.read k c.dataBuffer) ∧
      r.First seconds k := by
  rw [steady.readUntil_seek small bound, Nat.cast_zero]
  split_ifs with more
  · -- the time is between the first two frames
    have stop : ¬ ((((0 + 1 : ℕ) : ℚ) < seconds * r.fps) ∧ ((0 : ℕ) : ℚ) / r.fps ≠ c.currentTime) := by
      rintro ⟨later, -⟩
      push_cast at later
      linarith
    rw [readUntil_read small (next more), if_neg stop]
    refine ⟨1, rfl, first_of (next more) ?_ fun j less => ?_⟩
    · push_cast
      linarith
    · rwa [Nat.lt_one_iff.mp less, Nat.cast_zero]
  · refine ⟨0, rfl, first_of bound ?_ fun j less => absurd less (Nat.not_lt_zero j)⟩
    rw [Nat.cast_zero]
    exact not_lt.mp more

/-- A seek from frame `m` ends at the right frame, unless the camera is at frame `m` and the time is after the next one. -/
theorem Steady.sought_later (steady : r.Steady c) (small : r.Small) {m : ℕ} (bound : m + 1 < r.frames.length)
    (low : ((m + 1 : ℕ) : ℚ) ≤ seconds * r.fps) (high : seconds * r.fps < ((m + 1 + 1 : ℕ) : ℚ))
    (next : ((m + 1 : ℕ) : ℚ) < seconds * r.fps → m + 1 + 1 < r.frames.length) :
    ∃ k : ℕ, r.video.readUntil seconds (-1) { c with position := headerSize + r.packetSize * m } = some (r.read k c.dataBuffer) ∧
      (r.First seconds k ↔ ¬ (((m + 1 : ℕ) : ℚ) < seconds * r.fps ∧ c.currentFrame = m)) := by
  have before : (m : ℚ) < seconds * r.fps := by
    push_cast at low
    linarith
  have earlier : ∀ j < m + 1, (j : ℚ) < seconds * r.fps := by
    intro j less
    have le : (j : ℚ) ≤ m := Nat.cast_le.mpr (Nat.le_of_lt_succ less)
    linarith
  rw [steady.readUntil_seek small (Nat.lt_of_succ_lt bound), if_pos before, readUntil_read small bound]
  by_cases whole : ((m + 1 : ℕ) : ℚ) < seconds * r.fps
  · by_cases seen : (m : ℚ) / r.fps = c.currentTime
    · -- the loop has seen the time of the frame before, and stops one frame too early
      rw [if_neg fun more => more.2 seen]
      exact ⟨m + 1, rfl, iff_of_false (not_first whole) fun other => other ⟨whole, (steady.frame_iff m).mp seen⟩⟩
    · have stop : ¬ ((((m + 1 + 1 : ℕ) : ℚ) < seconds * r.fps) ∧ ((m + 1 : ℕ) : ℚ) / r.fps ≠ (m : ℚ) / r.fps) :=
        fun more => lt_asymm high more.1
      rw [if_pos ⟨whole, seen⟩, readUntil_read small (next whole), if_neg stop]
      refine ⟨m + 1 + 1, rfl, iff_of_true (first_of (next whole) high.le fun j less => ?_) fun behind => ?_⟩
      · rcases Nat.lt_succ_iff_lt_or_eq.mp less with less | rfl
        · exact earlier j less
        · exact whole
      · exact seen ((steady.frame_iff m).mpr behind.2)
  · rw [if_neg fun more => whole more.1]
    exact ⟨m + 1, rfl, iff_of_true (first_of bound (not_lt.mp whole) earlier) fun behind => whole behind.1⟩

/-- A seek inside ends at the right frame, unless it starts with the frame that the camera is at. -/
theorem Steady.sought (steady : r.Steady c) (small : r.Small) (inside : r.Inside seconds) :
    ∃ k : ℕ, r.video.seekToTime seconds c = some (r.read k c.dataBuffer) ∧ (r.First seconds k ↔ ¬ r.Behind seconds c) := by
  obtain ⟨n, same, low, high, bound, next⟩ := exists_floor inside
  rw [steady.seekToTime (fits_inside small inside), Behind, same]
  cases n with
  | zero =>
    rw [Nat.cast_zero] at high next
    rw [zero_add] at high
    obtain ⟨k, ends, first⟩ := steady.sought_first small bound high next
    rw [Int.toNat_of_nonpos (by decide)]
    exact ⟨k, ends, iff_of_true first fun behind => absurd behind.1 (by decide)⟩
  | succ m =>
    have start : (((m + 1 : ℕ) : ℤ) - 1).toNat = m := by omega
    have later : (((m + 1 : ℕ) : ℚ) < seconds * r.fps ∧ c.currentFrame = m) ↔
        1 ≤ ((m + 1 : ℕ) : ℤ) ∧ (((m + 1 : ℕ) : ℤ) : ℚ) ≠ seconds * r.fps ∧ c.currentFrame = ((m + 1 : ℕ) : ℤ) - 1 := by
      have back : ((m + 1 : ℕ) : ℤ) - 1 = m := by omega
      rw [Int.cast_natCast, low.lt_iff_ne, back]
      exact ⟨fun ⟨apart, at'⟩ => ⟨by omega, apart, at'⟩, fun ⟨_, apart, at'⟩ => ⟨apart, at'⟩⟩
    rw [start, ← later]
    exact steady.sought_later small bound low (by push_cast at high ⊢; linarith) next

/-! ### What is played -/

/-- The image made public is as large as the images recorded. -/
theorem image_read (small : r.Small) (k : ℕ) {data rest : List Byte} (size : data.length = r.dataSize) :
    r.video.image (r.read k (data ++ rest)) = data := by
  have bound := small.packet
  have wide : r.width ≤ r.dataSize := (Nat.le_mul_of_pos_right _ r.high).trans (Nat.le_mul_of_pos_right _ (by decide))
  have high : r.height ≤ r.dataSize := (Nat.le_mul_of_pos_left _ r.wide).trans (Nat.le_mul_of_pos_right _ (by decide))
  rw [packetSize] at bound
  have width : (BitVec.ofNat 32 r.width).toNat = r.width := Nat.mod_eq_of_lt (by omega)
  have height : (BitVec.ofNat 32 r.height).toNat = r.height := Nat.mod_eq_of_lt (by omega)
  simp only [Video.image, video, read, width, height]
  exact List.take_left' size

theorem play_drop (small : r.Small) (n : ℕ) (count : n + k = r.frames.length) (place : c.position = headerSize + r.packetSize * k)
    (size : c.dataBufferSize = r.packetSize) : r.video.play n c = some ((r.frames.drop k).map Frame.data) := by
  induction n generalizing c k with
  | zero =>
    rw [List.drop_eq_nil_of_le (by omega)]
    rfl
  | succ n ih =>
    have inside : k < r.frames.length := by omega
    have reads := readNextFrame_inside small false inside place size
    rw [if_neg (by decide)] at reads
    rw [Video.play, Video.update, reads, Option.bind_some, ih (k := k + 1) (by omega) rfl rfl, List.drop_eq_getElem_cons inside,
      List.map_cons, Option.map_some, image_read small k r.frames[k].size]

end Recording

open Recording

/-- Three images of one pixel, one each second. -/
def blink : Recording fun _ => 1 where
  width := 1
  height := 1
  framerate := 0
  frames := [⟨[1, 1, 1], 0, rfl⟩, ⟨[2, 2, 2], 0, rfl⟩, ⟨[3, 3, 3], 0, rfl⟩]
  wide := by decide
  high := by decide
  rate := by decide

theorem blink_small : blink.Small := by
  have packet : blink.packetSize < 2 ^ 31 := by decide
  refine ⟨packet, ?_⟩
  rw [file_length packet]
  decide

theorem blink_inside (seconds : ℚ) (low : 0 ≤ seconds) (high : seconds ≤ 2) : blink.Inside seconds := by
  have rate : blink.fps = 1 := rfl
  refine ⟨low, 2, by decide, ?_⟩
  rw [rate, div_one]
  exact_mod_cast high

end Tortuga.RawVideoSeeks
