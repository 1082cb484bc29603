import Mathlib.Data.Fin.VecNotation
import Mathlib.Data.Nat.Notation
import Mathlib.Logic.Function.Basic

/-!
The color filters of the vision package (`ColorFilter.cpp`, `TableColorFilter.cpp`) and their inverses.
The data of an image is what stands in the memory from `getData` on; a filter without an output
image writes to its input.
-/
namespace Tortuga.ColorFilters
set_option linter.unusedSimpArgs false

structure Image where
  width : ℕ
  height : ℕ
  channels : ℕ
  data : ℕ → UInt8
  positive : 0 < channels

/-- An image that is filtered has three channels. -/
structure ColorImage extends Image where
  three : channels = 3

def Image.numPixels (image : Image) : ℕ := image.width * image.height

/-! ### The pixel loops -/

/-- The inner loop: the bytes of one pixel of the output. -/
def writePixel (data : ℕ → UInt8) (start nChannels : ℕ) (result : UInt8) : ℕ → UInt8 :=
  (List.range nChannels).foldl (fun data k => Function.update data (start + k) result) data

/-- Three bytes of the input, from a place on. -/
def pixelAt (data : ℕ → UInt8) (start : ℕ) : Fin 3 → UInt8 := ![data start, data (start + 1), data (start + 2)]

/-- The outer loop of the filters, for what they make of a pixel. -/
def filterLoop (mark : (Fin 3 → UInt8) → UInt8) (input : ColorImage) : Option Image → Image
  | some output => { output with
      data := (List.range input.numPixels).foldl
        (fun data i => writePixel data (output.channels * i) output.channels (mark (pixelAt input.data (3 * i)))) output.data }
  | none => { input.toImage with
      data := (List.range input.numPixels).foldl
        (fun data i => writePixel data (input.channels * i) input.channels (mark (pixelAt data (3 * i)))) input.data }

/-! ### Ranges -/

def memset (table : ℕ → UInt8) (start : ℕ) (value : UInt8) (count : ℕ) : ℕ → UInt8 :=
  fun i => if start ≤ i ∧ i < start + count then value else table i

structure ColorFilter where
  low : Fin 3 → UInt8
  high : Fin 3 → UInt8
  range : Fin 3 → ℕ → UInt8

/-- The part of `setupRanges` for one channel. -/
def setupRange (low high : UInt8) : ℕ → UInt8 :=
  if low ≤ high then memset (fun _ => 0) low.toNat 255 (high.toNat - low.toNat + 1)
  else if high < low then memset (memset (fun _ => 0) 0 255 (high.toNat + 1)) low.toNat 255 (255 - low.toNat)
  else fun _ => 0

def ColorFilter.setupRanges (f : ColorFilter) : ColorFilter := { f with range := fun c => setupRange (f.low c) (f.high c) }

def ColorFilter.new (low high : Fin 3 → UInt8) : ColorFilter := { low, high, range := fun _ _ => 0 : ColorFilter }.setupRanges

/-- `setChannel1Low` to `setChannel3Low`. -/
def ColorFilter.setChannelLow (f : ColorFilter) (c : Fin 3) (value : ℤ) : Option ColorFilter :=
  if value < 256 then some { f with low := Function.update f.low c (UInt8.ofInt value) }.setupRanges else none

/-- `setChannel1High` to `setChannel3High`. -/
def ColorFilter.setChannelHigh (f : ColorFilter) (c : Fin 3) (value : ℤ) : Option ColorFilter :=
  if value < 256 then some { f with high := Function.update f.high c (UInt8.ofInt value) }.setupRanges else none

/-- The ranges of the three channels at a pixel, all in one byte. -/
def ColorFilter.look (f : ColorFilter) (p : Fin 3 → UInt8) : UInt8 :=
  f.range 0 (p 0).toNat &&& f.range 1 (p 1).toNat &&& f.range 2 (p 2).toNat

def ColorFilter.filterImage (f : ColorFilter) (input : ColorImage) (output : Option Image) : Image := filterLoop f.look input output

def ColorFilter.inverseFilterImage (f : ColorFilter) (input : ColorImage) (output : Option Image) : Image :=
  filterLoop (fun p => 255 * if f.look p = 0 then 1 else 0) input output

/-! ### Tables -/

structure BitField3D where
  bitfield : ℕ → Bool
  length : ℕ
  width : ℕ

/-- `operator()`. -/
def BitField3D.get (b : BitField3D) (x y z : ℕ) : Bool := b.bitfield (b.length * b.width * z + b.length * y + x)

/-- `m_filterTable` at a pixel. -/
def BitField3D.look (table : BitField3D) (p : Fin 3 → UInt8) : Bool := table.get (p 0).toNat (p 1).toNat (p 2).toNat

namespace TableColorFilter

def filterImage (table : BitField3D) (input : ColorImage) (output : Option Image) : Image :=
  filterLoop (fun p => if table.look p then 255 else 0) input output

def inverseFilterImage (table : BitField3D) (input : ColorImage) (output : Option Image) : Image :=
  filterLoop (fun p => if !table.look p then 0 else 255) input output

end TableColorFilter

/-! ### What the filters are for -/

/-- A byte of a pixel of the result. -/
def Image.byte (image : Image) (i k : ℕ) : UInt8 := image.data (image.channels * i + k)

def Marked (image : Image) (i : ℕ) : Prop := ∀ k < image.channels, image.byte i k = 255

def Clear (image : Image) (i : ℕ) : Prop := ∀ k < image.channels, image.byte i k = 0

/-- The first pixels are marked if they have a property, and otherwise clear. -/
def Marks (image : Image) (n : ℕ) (P : ℕ → Prop) : Prop := ∀ i < n, (P i → Marked image i) ∧ (¬ P i → Clear image i)

/-- A value in an inclusive range, which may wrap around 255. -/
def InRange (low high value : UInt8) : Prop := if low ≤ high then low ≤ value ∧ value ≤ high else value ≤ high ∨ low ≤ value

instance (low high value : UInt8) : Decidable (InRange low high value) := inferInstanceAs (Decidable (ite _ _ _))

/-- All channels of a pixel of the input lie in their ranges. -/
def InRanges (low high : Fin 3 → UInt8) (input : ColorImage) (i : ℕ) : Prop :=
  ∀ c, InRange (low c) (high c) (pixelAt input.data (3 * i) c)

instance (low high : Fin 3 → UInt8) (input : ColorImage) (i : ℕ) : Decidable (InRanges low high input i) :=
  inferInstanceAs (Decidable (∀ _, _))

/-- The value 255 in a channel whose range wraps around. -/
def Lost (low high value : UInt8) : Prop := high < low ∧ value = 255

instance (low high value : UInt8) : Decidable (Lost low high value) := inferInstanceAs (Decidable (_ ∧ _))

section
variable {mark : (Fin 3 → UInt8) → UInt8} {input : ColorImage} {output : Option Image} {data : ℕ → UInt8} {start n m i k : ℕ} {result : UInt8}

/-! ### What the loops write -/

theorem writePixel_apply (data : ℕ → UInt8) (start n : ℕ) (result : UInt8) (m : ℕ) :
    writePixel data start n result m = if start ≤ m ∧ m < start + n then result else data m := by
  induction n with
  | zero => rw [if_neg (by omega)]; rfl
  | succ n ih =>
    rw [writePixel, List.range_succ, List.foldl_append, List.foldl_cons, List.foldl_nil]
    by_cases last : m = start + n
    · rw [last, Function.update_self, if_pos (by omega)]
    · rw [Function.update_of_ne last]
      refine ih.trans ?_
      by_cases inside : start ≤ m ∧ m < start + n
      · rw [if_pos inside, if_pos (by omega)]
      · rw [if_neg inside, if_neg (by omega)]

/-- The pixels of a loop stand one after the other: each is written once. -/
theorem pixels_apply (marks : ℕ → UInt8) (data : ℕ → UInt8) {channels : ℕ} (small : k < channels) (inside : i < n) :
    (List.range n).foldl (fun data i => writePixel data (channels * i) channels (marks i)) data (channels * i + k) = marks i := by
  induction n with
  | zero => omega
  | succ n ih =>
    rw [List.range_succ, List.foldl_append, List.foldl_cons, List.foldl_nil, writePixel_apply]
    rcases Nat.lt_succ_iff_lt_or_eq.mp inside with earlier | rfl
    · have before : channels * i + channels ≤ channels * n := by
        rw [← Nat.mul_succ]
        exact Nat.mul_le_mul_left channels earlier
      rw [if_neg (by omega)]
      exact ih earlier
    · rw [if_pos (by omega)]

theorem pixels_behind (marks : ℕ → UInt8) (data : ℕ → UInt8) {channels : ℕ} (behind : channels * n ≤ m) :
    (List.range n).foldl (fun data i => writePixel data (channels * i) channels (marks i)) data m = data m := by
  induction n with
  | zero => rfl
  | succ n ih =>
    rw [Nat.mul_succ] at behind
    rw [List.range_succ, List.foldl_append, List.foldl_cons, List.foldl_nil, writePixel_apply, if_neg (by omega)]
    exact ih (by omega)

/-- A loop that writes to its input reads each pixel before it is written. -/
theorem inPlace_eq (mark : (Fin 3 → UInt8) → UInt8) (data : ℕ → UInt8) (n : ℕ) :
    (List.range n).foldl (fun data i => writePixel data (3 * i) 3 (mark (pixelAt data (3 * i)))) data =
      (List.range n).foldl (fun now i => writePixel now (3 * i) 3 (mark (pixelAt data (3 * i)))) data := by
  induction n with
  | zero => rfl
  | succ n ih =>
    rw [List.range_succ, List.foldl_append, List.foldl_append, ih, List.foldl_cons, List.foldl_nil, List.foldl_cons, List.foldl_nil]
    have unread : ∀ j, (List.range n).foldl (fun now i => writePixel now (3 * i) 3 (mark (pixelAt data (3 * i)))) data (3 * n + j) =
        data (3 * n + j) := fun j => pixels_behind (fun i => mark (pixelAt data (3 * i))) data (Nat.le_add_right _ j)
    have same : pixelAt ((List.range n).foldl (fun now i => writePixel now (3 * i) 3 (mark (pixelAt data (3 * i)))) data) (3 * n) =
        pixelAt data (3 * n) := by
      rw [pixelAt, pixelAt, unread 1, unread 2]
      exact congrArg (fun first => ![first, data (3 * n + 1), data (3 * n + 2)]) (unread 0)
    rw [same]

/-- Each byte of a pixel of the result is what the filter makes of the pixel of the input. -/
theorem filterLoop_byte (mark : (Fin 3 → UInt8) → UInt8) (input : ColorImage) (output : Option Image) (inside : i < input.numPixels)
    (small : k < (filterLoop mark input output).channels) :
    (filterLoop mark input output).byte i k = mark (pixelAt input.data (3 * i)) := by
  cases output with
  | some output => exact pixels_apply (fun i => mark (pixelAt input.data (3 * i))) output.data small inside
  | none =>
    have three := input.three
    simp only [filterLoop, Image.byte, three] at small ⊢
    rw [inPlace_eq]
    exact pixels_apply (fun i => mark (pixelAt input.data (3 * i))) input.data small inside

/-- The bytes behind the pixels are not touched. -/
theorem filterLoop_behind (behind : (filterLoop mark input output).channels * input.numPixels ≤ m) :
    (filterLoop mark input output).data m = (output.getD input.toImage).data m := by
  cases output with
  | some output => exact pixels_behind (fun i => mark (pixelAt input.data (3 * i))) output.data behind
  | none =>
    have three := input.three
    simp only [filterLoop, three] at behind ⊢
    rw [inPlace_eq]
    exact pixels_behind (fun i => mark (pixelAt input.data (3 * i))) input.data behind

/-- A filter marks pixels as it decides on each of them. -/
theorem filterLoop_marks {P : ℕ → Prop} (marked : ∀ i < input.numPixels, P i → mark (pixelAt input.data (3 * i)) = 255)
    (clear : ∀ i < input.numPixels, ¬ P i → mark (pixelAt input.data (3 * i)) = 0) (output : Option Image) :
    Marks (filterLoop mark input output) input.numPixels P := by
  intro i inside
  constructor
  · intro yes k small
    rw [filterLoop_byte mark input output inside small, marked i inside yes]
  · intro no k small
    rw [filterLoop_byte mark input output inside small, clear i inside no]

theorem filterLoop_marked (inside : i < input.numPixels) :
    Marked (filterLoop mark input output) i ↔ mark (pixelAt input.data (3 * i)) = 255 := by
  constructor
  · intro marked
    rw [← filterLoop_byte mark input output inside (filterLoop mark input output).positive]
    exact marked 0 (filterLoop mark input output).positive
  · intro same k small
    rw [filterLoop_byte mark input output inside small, same]

end

/-! ### The ranges -/

section
variable {low high : Fin 3 → UInt8} {f : ColorFilter} {c : Fin 3} {value : ℤ}

/-- The table of a range has all its values but one: a range that wraps around does not have 255. -/
theorem setupRange_apply (low high v : UInt8) :
    setupRange low high v.toNat = if InRange low high v ∧ ¬ Lost low high v then 255 else 0 := by
  have small := v.toNat_lt
  have start := low.toNat_lt
  have stop := high.toNat_lt
  have last : v = 255 ↔ v.toNat = 255 := UInt8.toNat_inj.symm
  rw [setupRange]
  simp only [InRange, Lost, last, UInt8.le_iff_toNat_le, UInt8.lt_iff_toNat_lt]
  by_cases ordinary : low.toNat ≤ high.toNat
  · simp only [if_pos ordinary, memset]
    split_ifs <;> first | rfl | omega
  · simp only [if_neg ordinary, if_pos (not_le.mp ordinary), memset]
    split_ifs <;> first | rfl | omega

/-- The setters leave the filter that the constructor gives. -/
theorem setChannelLow_new (low high : Fin 3 → UInt8) (c : Fin 3) (inside : value < 256) :
    (ColorFilter.new low high).setChannelLow c value = some (.new (Function.update low c (UInt8.ofInt value)) high) := if_pos inside

theorem setChannelHigh_new (low high : Fin 3 → UInt8) (c : Fin 3) (inside : value < 256) :
    (ColorFilter.new low high).setChannelHigh c value = some (.new low (Function.update high c (UInt8.ofInt value))) := if_pos inside

/-- A pixel passes the filter if no channel is outside its range or lost. -/
def Passes (low high : Fin 3 → UInt8) (p : Fin 3 → UInt8) : Prop := ∀ c, InRange (low c) (high c) (p c) ∧ ¬ Lost (low c) (high c) (p c)

instance (low high p : Fin 3 → UInt8) : Decidable (Passes low high p) := inferInstanceAs (Decidable (∀ _, _))

theorem mask_and (P Q : Prop) [Decidable P] [Decidable Q] :
    ((if P then 255 else 0) &&& if Q then 255 else 0 : UInt8) = if P ∧ Q then 255 else 0 := by
  by_cases first : P <;> by_cases second : Q <;> simp [first, second]

theorem look_eq (low high p : Fin 3 → UInt8) : (ColorFilter.new low high).look p = if Passes low high p then 255 else 0 := by
  have table : ∀ c v, (ColorFilter.new low high).range c (UInt8.toNat v) =
      if InRange (low c) (high c) v ∧ ¬ Lost (low c) (high c) v then 255 else 0 := fun c v => setupRange_apply (low c) (high c) v
  have all : Passes low high p ↔ (InRange (low 0) (high 0) (p 0) ∧ ¬ Lost (low 0) (high 0) (p 0)) ∧
      (InRange (low 1) (high 1) (p 1) ∧ ¬ Lost (low 1) (high 1) (p 1)) ∧ InRange (low 2) (high 2) (p 2) ∧ ¬ Lost (low 2) (high 2) (p 2) := by
    rw [Passes, Fin.forall_fin_succ, Fin.forall_fin_two]
    rfl
  rw [ColorFilter.look, table, table, table, mask_and, mask_and]
  simp only [all, and_assoc]

end

/-- A picture of one pixel of full blue. -/
def bluePixel : ColorImage := ⟨⟨1, 1, 3, fun i => if i = 0 then 255 else 0, by decide⟩, rfl⟩

end Tortuga.ColorFilters
