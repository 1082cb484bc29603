import Mathlib.Data.Int.Basic
import Mathlib.Tactic.Linarith
import Mathlib.Tactic.Ring
import Tortuga.LittleEndian
import Tortuga.Raising

/-!
Images over the network: what the recorder sends (`NetworkRecorder.cpp`) and what the camera makes of the
bytes that it reads (`NetworkCamera.cpp`, `OpenCVImage.cpp`). A `size_t` has `s` bytes.
-/
namespace Tortuga.NetworkFrames
open Tortuga.BusCodes Tortuga.LittleEndian Tortuga.Raising

/-! ### Formats -/

/-- `Image::PF_BGR_8`. -/
abbrev bgr8 : ℕ := 2

/-- `Image::PF_END`, the last of the formats. -/
abbrev formatEnd : ℕ := 10

/-- `Image::formatChannelsLookup`: only `PF_GRAY_8` has one channel. -/
def formatChannelsLookup : List ℕ := [3, 3, 3, 3, 1, 3, 3, 3, 3, 3, 3]

/-! ### The camera -/

/-- Why there is no image: the connection ends, memory runs out, an assertion fails, or the library refuses. -/
inductive Failure where
  | systemError
  | badAlloc
  | assertion
  | openCV
  deriving DecidableEq, Repr

/-- Which sizes are allocated, and which headers of images the library makes. -/
structure Machine where
  allocates : ℕ → Bool
  createsHeader : ℤ → ℤ → ℕ → Bool

/-- The image that is handed out, over the bytes that were received. -/
structure Frame where
  width : ℤ
  height : ℤ
  format : ℕ
  channels : ℕ
  data : List Byte
  deriving DecidableEq, Repr

/-- A `size_t` as an `int`. -/
@[irreducible] def toInt (n : ℕ) : ℤ := (n : ℤ).bmod (2 ^ 32)

/-- `boost::asio::read`, which throws when the connection ends before. -/
def readBytes (n : ℕ) (stream : List Byte) : Except Failure (List Byte × List Byte) :=
  if n ≤ stream.length then .ok (stream.take n, stream.drop n) else .error .systemError

/-- The constructor for given data. -/
def OpenCVImage (m : Machine) (data : List Byte) (width height : ℤ) (format : ℕ) : Except Failure Frame :=
  if width < 1 then .error .assertion
  else if height < 1 then .error .assertion
  else
    match formatChannelsLookup[format]? with
    | none => .error .assertion
    | some channels =>
      if m.createsHeader width height channels then .ok ⟨width, height, format, channels, data⟩ else .error .openCV

/-- From where the image data are read, up to `capturedImage`. -/
def update (s : ℕ) (m : Machine) (stream : List Byte) : Except Failure Frame := do
  let (packetSize, stream) ← readBytes s stream
  let (width, stream) ← readBytes s stream
  let (height, stream) ← readBytes s stream
  let (fmt, stream) ← readBytes 4 stream
  if m.allocates (number packetSize) then
    let (data, _) ← readBytes (number packetSize) stream
    OpenCVImage m data (toInt (number width)) (toInt (number height)) (number fmt)
  else throw .badAlloc

/-! ### The recorder -/

/-- The size of an image of at least one pixel in memory, with three channels: a row has `widthStep` bytes,
    of which those after the pixels are padding. -/
structure Shape (s : ℕ) where
  width : ℕ
  height : ℕ
  widthStep : ℕ
  width_pos : 1 ≤ width
  height_pos : 1 ≤ height
  width_int : width < 2 ^ 31
  height_int : height < 2 ^ 31
  row : width * 3 ≤ widthStep
  addressable : widthStep * height < 256 ^ s

/-- The image after `setPixelFormat(PF_BGR_8)`. -/
structure Image {s : ℕ} (shape : Shape s) where
  data : List Byte
  size : data.length = shape.widthStep * shape.height

/-- What is sent. The product is one of `size_t`. -/
def sendImage {s : ℕ} {shape : Shape s} (img : Image shape) : List Byte :=
  let len := shape.width * shape.height * 3 % 256 ^ s
  let buf := img.data.take len
  LittleEndian.bytes s len ++ LittleEndian.bytes s shape.width ++ LittleEndian.bytes s shape.height ++ LittleEndian.bytes 4 bgr8 ++ buf

/-! ### What is meant -/

/-- How many bytes of data the stream announces. -/
def announced (s : ℕ) (stream : List Byte) : ℕ := field 0 s stream

/-- The image that is handed out, if any, comes after all the bytes that were announced, and its pixels are
    among them. -/
def Covered (s : ℕ) (m : Machine) (stream : List Byte) : Prop :=
  ∀ f, update s m stream = .ok f →
    3 * s + 4 + announced s stream ≤ stream.length ∧ f.data = (stream.drop (3 * s + 4)).take (announced s stream) ∧
      1 ≤ f.width * f.height * f.channels ∧ f.width * f.height * f.channels ≤ announced s stream

/-- The byte `k` of the row `r`, where a row has as many bytes as it has pixels times channels. -/
def Frame.byte (f : Frame) (r k : ℕ) : Option Byte := f.data[r * (f.width.toNat * f.channels) + k]?

def Image.byte {s : ℕ} {shape : Shape s} (img : Image shape) (r k : ℕ) : Option Byte := img.data[r * shape.widthStep + k]?

/-- The image that was sent is handed out, if there is memory for it and the library takes it. -/
def Comes {s : ℕ} {shape : Shape s} (m : Machine) (img : Image shape) : Prop :=
  m.allocates (shape.width * shape.height * 3) = true → m.createsHeader shape.width shape.height 3 = true →
    ∃ f, update s m (sendImage img) = .ok f ∧ f.width = shape.width ∧ f.height = shape.height ∧ f.format = bgr8 ∧
      ∀ r < shape.height, ∀ k < shape.width * 3, f.byte r k = img.byte r k

/-! ### When it is so -/

/-- A stream that announces a size of the image does not announce fewer bytes. -/
def Enough (s : ℕ) (stream : List Byte) : Prop :=
  3 * s + 4 + announced s stream ≤ stream.length → 1 ≤ toInt (field s s stream) → 1 ≤ toInt (field (2 * s) s stream) →
    ∀ channels, formatChannelsLookup[field (3 * s) 4 stream]? = some channels →
      toInt (field s s stream) * toInt (field (2 * s) s stream) * channels ≤ announced s stream

/-! ### Reading -/

theorem readBytes_ok {n : ℕ} {stream : List Byte} {read : List Byte × List Byte} :
    readBytes n stream = .ok read ↔ n ≤ stream.length ∧ read = (stream.take n, stream.drop n) := by
  rw [readBytes]
  split_ifs with enough
  · simp [enough, eq_comm]
  · simp [enough]

theorem OpenCVImage_ok {m : Machine} {data : List Byte} {width height : ℤ} {format : ℕ} {f : Frame} :
    OpenCVImage m data width height format = .ok f ↔ 1 ≤ width ∧ 1 ≤ height ∧ ∃ channels, formatChannelsLookup[format]? = some channels ∧
      m.createsHeader width height channels = true ∧ f = ⟨width, height, format, channels, data⟩ := by
  rw [OpenCVImage]
  split_ifs with narrow low
  · simp [not_le.mpr narrow]
  · simp [not_le.mpr low]
  · rw [and_iff_right (not_lt.mp narrow), and_iff_right (not_lt.mp low)]
    cases formatChannelsLookup[format]? with
    | none => simp
    | some channels =>
      dsimp only
      split_ifs with creates
      · constructor
        · intro same
          exact ⟨channels, rfl, creates, (Except.ok.inj same).symm⟩
        · rintro ⟨_, there, -, rfl⟩
          rw [Option.some.inj there]
      · simp [creates]

/-- An image is handed out exactly when all that is announced arrives and the checks pass. -/
theorem update_ok {s : ℕ} {m : Machine} {stream : List Byte} {f : Frame} :
    update s m stream = .ok f ↔ m.allocates (announced s stream) = true ∧ 3 * s + 4 + announced s stream ≤ stream.length ∧
      OpenCVImage m ((stream.drop (3 * s + 4)).take (announced s stream)) (toInt (field s s stream))
        (toInt (field (2 * s) s stream)) (field (3 * s) 4 stream) = .ok f := by
  have second : (stream.drop s).drop s = stream.drop (2 * s) := by rw [List.drop_drop, two_mul]
  have third : (stream.drop (2 * s)).drop s = stream.drop (3 * s) := by
    rw [List.drop_drop]
    congr 1
    omega
  have fourth : (stream.drop (3 * s)).drop 4 = stream.drop (3 * s + 4) := by rw [List.drop_drop]
  have first : number (stream.take s) = announced s stream := rfl
  simp only [update, except_bind_ok, readBytes_ok]
  constructor
  · rintro ⟨_, ⟨one, rfl⟩, _, ⟨two, rfl⟩, _, ⟨three, rfl⟩, _, ⟨four, rfl⟩, rest⟩
    simp only [second, third, fourth, first] at three four rest
    split_ifs at rest with allocates
    simp only [except_bind_ok, readBytes_ok] at rest
    obtain ⟨_, ⟨enough, rfl⟩, made⟩ := rest
    simp only [List.length_drop] at four enough
    exact ⟨allocates, by omega, made⟩
  · rintro ⟨allocates, enough, made⟩
    refine ⟨_, ⟨by omega, rfl⟩, _, ⟨by rw [List.length_drop]; omega, rfl⟩, ?_⟩
    simp only [second, third, first]
    refine ⟨_, ⟨by rw [List.length_drop]; omega, rfl⟩, ?_⟩
    simp only [fourth]
    refine ⟨_, ⟨by rw [List.length_drop]; omega, rfl⟩, ?_⟩
    simp only [if_pos allocates, except_bind_ok, readBytes_ok]
    exact ⟨_, ⟨by rw [List.length_drop]; omega, rfl⟩, made⟩

/-! ### Any stream -/

/-- Whatever memory there is, the image that is handed out is covered exactly when the stream announces enough. -/
theorem covered_iff (s : ℕ) (stream : List Byte) : (∀ m, Covered s m stream) ↔ Enough s stream := by
  constructor
  · intro covered arrived wide high channels there
    have made : update s ⟨fun _ => true, fun _ _ _ => true⟩ stream = .ok _ :=
      update_ok.mpr ⟨rfl, arrived, OpenCVImage_ok.mpr ⟨wide, high, channels, there, rfl, rfl⟩⟩
    exact (covered _ _ made).2.2.2
  · intro enough m f made
    obtain ⟨-, arrived, made⟩ := update_ok.mp made
    obtain ⟨wide, high, channels, there, -, rfl⟩ := OpenCVImage_ok.mp made
    refine ⟨arrived, rfl, ?_, enough arrived wide high channels there⟩
    have several : 1 ≤ channels := by
      have all : ∀ channels ∈ formatChannelsLookup, 1 ≤ channels := by decide
      exact all channels (List.mem_of_getElem? there)
    have area : 1 ≤ toInt (field s s stream) * toInt (field (2 * s) s stream) := by nlinarith
    have cast : (1 : ℤ) ≤ channels := by exact_mod_cast several
    show 1 ≤ toInt (field s s stream) * toInt (field (2 * s) s stream) * channels
    nlinarith

/-! ### Sent images -/

theorem toInt_of_lt {n : ℕ} (small : n < 2 ^ 31) : toInt n = n := by
  unfold toInt
  exact Int.bmod_eq_of_le (by omega) (by omega)

section
variable {s : ℕ} {shape : Shape s}

theorem Shape.size_fits (shape : Shape s) : shape.width * shape.height * 3 ≤ shape.widthStep * shape.height := by
  have rows := Nat.mul_le_mul_right shape.height shape.row
  calc shape.width * shape.height * 3 = shape.width * 3 * shape.height := by ring
    _ ≤ shape.widthStep * shape.height := rows

theorem Shape.len_eq (shape : Shape s) : shape.width * shape.height * 3 % 256 ^ s = shape.width * shape.height * 3 :=
  Nat.mod_eq_of_lt (shape.size_fits.trans_lt shape.addressable)

/-- The bytes of the image that are sent. -/
def Image.sent (img : Image shape) : List Byte := img.data.take (shape.width * shape.height * 3)

theorem length_sent (img : Image shape) : img.sent.length = shape.width * shape.height * 3 := by
  rw [Image.sent, List.length_take, img.size, min_eq_left shape.size_fits]

theorem Shape.width_fits (shape : Shape s) : shape.width < 256 ^ s := by
  have row := shape.row
  have high := Nat.le_mul_of_pos_right shape.widthStep shape.height_pos
  have := shape.addressable
  omega

theorem Shape.height_fits (shape : Shape s) : shape.height < 256 ^ s := by
  have wide : 1 ≤ shape.widthStep := by
    have row := shape.row
    have := shape.width_pos
    omega
  have := Nat.le_mul_of_pos_left shape.height wide
  exact this.trans_lt shape.addressable

theorem sendImage_eq (img : Image shape) : sendImage img =
    LittleEndian.bytes s (shape.width * shape.height * 3) ++ (LittleEndian.bytes s shape.width ++
      (LittleEndian.bytes s shape.height ++ (LittleEndian.bytes 4 bgr8 ++ img.sent))) := by
  simp only [sendImage, shape.len_eq, List.append_assoc, Image.sent]

/-- What is read of the image is what was sent. -/
theorem fields_sent (img : Image shape) :
    announced s (sendImage img) = shape.width * shape.height * 3 ∧ field s s (sendImage img) = shape.width ∧
      field (2 * s) s (sendImage img) = shape.height ∧ field (3 * s) 4 (sendImage img) = bgr8 := by
  rw [sendImage_eq]
  refine ⟨?_, ?_, ?_, ?_⟩
  · rw [announced, field_zero, number_bytes, shape.len_eq]
  · rw [field_append _ _ _ (by simp), length_bytes, Nat.sub_self, field_zero, number_bytes, Nat.mod_eq_of_lt shape.width_fits]
  · rw [field_append _ _ _ (by rw [length_bytes]; omega), field_append _ _ _ (by rw [length_bytes, length_bytes]; omega)]
    rw [length_bytes, length_bytes, show 2 * s - s - s = 0 by omega, field_zero, number_bytes, Nat.mod_eq_of_lt shape.height_fits]
  · rw [field_append _ _ _ (by rw [length_bytes]; omega), field_append _ _ _ (by rw [length_bytes, length_bytes]; omega),
      field_append _ _ _ (by rw [length_bytes, length_bytes, length_bytes]; omega)]
    rw [length_bytes, length_bytes, length_bytes, show 3 * s - s - s - s = 0 by omega, field_zero, number_bytes]
    rfl

theorem drop_sent (img : Image shape) : (sendImage img).drop (3 * s + 4) = img.sent := by
  rw [sendImage_eq, ← List.append_assoc, ← List.append_assoc, ← List.append_assoc]
  refine List.drop_left' ?_
  simp only [List.length_append, length_bytes]
  omega

/-- The frame that the camera makes of it. -/
def Image.frame (img : Image shape) : Frame := ⟨shape.width, shape.height, bgr8, 3, img.sent⟩

theorem update_sent {m : Machine} {img : Image shape} {f : Frame} : update s m (sendImage img) = .ok f ↔
    m.allocates (shape.width * shape.height * 3) = true ∧ m.createsHeader shape.width shape.height 3 = true ∧ f = img.frame := by
  obtain ⟨len, width, height, format⟩ := fields_sent img
  have arrived : 3 * s + 4 + shape.width * shape.height * 3 ≤ (sendImage img).length := by
    rw [sendImage_eq]
    simp only [List.length_append, length_bytes, length_sent]
    omega
  have all : img.sent.take (shape.width * shape.height * 3) = img.sent := List.take_of_length_le (length_sent img).le
  rw [update_ok, len, width, height, format, drop_sent, all, toInt_of_lt shape.width_int, toInt_of_lt shape.height_int, OpenCVImage_ok]
  have wide : (1 : ℤ) ≤ shape.width := by exact_mod_cast shape.width_pos
  have high : (1 : ℤ) ≤ shape.height := by exact_mod_cast shape.height_pos
  constructor
  · rintro ⟨allocates, -, -, -, channels, there, creates, rfl⟩
    obtain rfl : 3 = channels := by simpa [formatChannelsLookup] using there
    exact ⟨allocates, creates, rfl⟩
  · rintro ⟨allocates, creates, rfl⟩
    exact ⟨allocates, arrived, wide, high, 3, rfl, creates, rfl⟩

theorem frame_byte (img : Image shape) {r k : ℕ} (row : r < shape.height) (column : k < shape.width * 3) :
    img.frame.byte r k = img.data[r * (shape.width * 3) + k]? := by
  have inside : r * (shape.width * 3) + k < shape.width * shape.height * 3 := by
    calc r * (shape.width * 3) + k < r * (shape.width * 3) + shape.width * 3 := by omega
      _ = (r + 1) * (shape.width * 3) := by ring
      _ ≤ shape.height * (shape.width * 3) := Nat.mul_le_mul_right _ row
      _ = shape.width * shape.height * 3 := by ring
  show (img.data.take (shape.width * shape.height * 3))[r * (shape.width * 3) + k]? = _
  rw [List.getElem?_take, if_pos inside]

/-- An image with a one at the start of its second row. -/
def marked (shape : Shape s) : Image shape where
  data := (List.range (shape.widthStep * shape.height)).map fun i => if i = shape.widthStep then 1 else 0
  size := by rw [List.length_map, List.length_range]

/-- All images of a size come through exactly when their rows have no padding, or there is only one. -/
theorem comes_iff (shape : Shape s) : (∀ m, ∀ img : Image shape, Comes m img) ↔ shape.widthStep = shape.width * 3 ∨ shape.height = 1 := by
  have row := shape.row
  have high := shape.height_pos
  constructor
  · intro comes
    by_contra padded
    rw [not_or] at padded
    have two : 2 ≤ shape.height := by omega
    obtain ⟨f, made, -, -, -, same⟩ := comes ⟨fun _ => true, fun _ _ _ => true⟩ (marked shape) rfl rfl
    obtain ⟨-, -, rfl⟩ := update_sent.mp made
    have first : 0 < shape.width * 3 := by
      have := shape.width_pos
      omega
    have second := same 1 two 0 first
    have size := Nat.mul_le_mul_left shape.widthStep two
    rw [frame_byte _ two first, Image.byte, marked] at second
    simp only [one_mul, add_zero, List.getElem?_map] at second
    rw [List.getElem?_range (by omega), List.getElem?_range (by omega)] at second
    simp [Ne.symm padded.1] at second
  · intro tight m img allocates creates
    refine ⟨img.frame, update_sent.mpr ⟨allocates, creates, rfl⟩, rfl, rfl, rfl, fun r inside k column => ?_⟩
    rw [frame_byte img inside column, Image.byte]
    rcases tight with same | one
    · rw [same]
    · obtain rfl : r = 0 := by omega
      rw [Nat.zero_mul, Nat.zero_mul]

end

/-- What is handed out is covered by the bytes that came exactly for the streams that announce enough of them,
    and the images of a size come through exactly when their rows have no padding or there is only one. -/
theorem frames_right (s : ℕ) : (∀ stream, (∀ m, Covered s m stream) ↔ Enough s stream) ∧
    ∀ shape : Shape s, (∀ m, ∀ img : Image shape, Comes m img) ↔ shape.widthStep = shape.width * 3 ∨ shape.height = 1 :=
  ⟨covered_iff s, comes_iff⟩

/-! ### Two frames -/

def roomy : Machine := ⟨fun _ => true, fun _ _ _ => true⟩

/-- A stream that announces one pixel and no data. -/
def noData : List Byte := LittleEndian.bytes 8 0 ++ LittleEndian.bytes 8 1 ++ LittleEndian.bytes 8 1 ++ LittleEndian.bytes 4 bgr8

/-- An image of one pixel above another, as the library makes it: with four bytes a row. -/
def twoRows : Shape 8 where
  width := 1
  height := 2
  widthStep := 4
  width_pos := by decide
  height_pos := by decide
  width_int := by decide
  height_int := by decide
  row := by decide
  addressable := by decide

/-- One pixel is handed out over no bytes, and the second row of an image comes one byte too early. -/
theorem frames_wrong : ¬ Covered 8 roomy noData ∧ ¬ Comes roomy (marked twoRows) := by
  constructor
  · intro covered
    have made : update 8 roomy noData = .ok ⟨1, 1, 2, 3, []⟩ := by decide +kernel
    exact absurd (covered _ made).2.2.2 (by decide)
  · intro comes
    obtain ⟨f, made, -, -, -, same⟩ := comes rfl rfl
    obtain ⟨-, -, rfl⟩ := update_sent.mp made
    exact absurd (same 1 (by decide) 0 (by decide)) (by decide)

end Tortuga.NetworkFrames
