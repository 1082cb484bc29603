import Mathlib.Algebra.Order.Ring.Int
import Mathlib.Data.List.Basic
import Mathlib.Logic.Function.Basic

/-!
The search for a ping in a dataset: the samples (`dataset.c`), the sliding transform of a few
bands (`SparseSDFTSpectrum.h`), the detector over it (`PingDetect.cpp`) and `getChunk`
(`GetPingChunk.cpp`), which cuts out a piece for each channel.
-/
namespace Tortuga.PingChunks

/-! ### Settings (`Sonar.h`) -/

def nchannels : ℕ := 4
def nKBands : ℕ := 2
def samprate : ℕ := 500000
def maxSensorSeparation : ℕ := 1000
def speedOfSound : ℕ := 1500

/-- "Maximum separation between adjacent pings". -/
def maxPingSep : ℕ := samprate * maxSensorSeparation / (1000 * speedOfSound)

def dftFrame : ℕ := 512
def pingDetectFrame : ℕ := 200
def pdThreshold : ℤ := 30
def envCalcFrame : ℕ := 1024

/-- `adc<16>::DOUBLE_WIDE::SIGNED_MAX`. -/
def signedMax : ℤ := 2147483647

/-- A value stored in an `int32_t`. -/
def int32 (x : ℤ) : ℤ := Int.bmod x 4294967296

/-! ### Samples -/

/-- `struct dataset`: the samples of a unit of 1024, of a channel, at an offset. -/
structure Dataset where
  size : ℤ
  data : ℕ → ℕ → ℕ → ℤ

def getSample (s : Dataset) (ch index : ℤ) : ℤ :=
  if ch < 0 ∨ ch > 3 then -1
  else if index < 0 ∨ index ≥ s.size then -1
  else s.data (index.toNat >>> 10) ch.toNat (index.toNat &&& 1023)

/-! ### The transform and the detector -/

/-- What the constructors compute in floating point: the coefficients of the bands, and the test
    `FREQ_REJECT_RATIO*other > first`. -/
structure Config where
  coefRe : ℕ → ℤ
  coefIm : ℕ → ℤ
  tooLoud : ℤ → ℤ → Bool

/-- `SparseSDFTSpectrum`, by band and channel. -/
structure Spectrum where
  idx : ℕ
  data : ℕ → ℕ → ℤ
  fourierRe : ℕ → ℕ → ℤ
  fourierIm : ℕ → ℕ → ℤ

variable (cfg : Config)

def Spectrum.update (sample : ℕ → ℤ) (s : Spectrum) : Spectrum :=
  let rhsRe := fun k channel => int32 (s.fourierRe k channel + (sample channel - s.data s.idx channel))
  { idx := if s.idx + 1 = dftFrame then 0 else s.idx + 1
    data := Function.update s.data s.idx sample
    fourierRe := fun k channel => int32 ((cfg.coefRe k * rhsRe k channel - cfg.coefIm k * s.fourierIm k channel) >>> (15 : ℕ))
    fourierIm := fun k channel => int32 ((cfg.coefRe k * s.fourierIm k channel + cfg.coefIm k * rhsRe k channel) >>> (15 : ℕ)) }

/-- `magL1` of the amplitude of a band. -/
def Spectrum.magL1 (s : Spectrum) (k channel : ℕ) : ℤ :=
  int32 ((s.fourierRe k channel).natAbs + (s.fourierIm k channel).natAbs)

structure PingDetect where
  count : ℕ
  currmax : ℕ → ℕ → ℤ
  minmax : ℕ → ℤ
  spectrum : Spectrum

/-- "Re-initializes the parameters for a new calculation", but for the transform. -/
def PingDetect.purge (p : PingDetect) : PingDetect :=
  { p with count := 0, currmax := fun _ _ => 0, minmax := fun _ => signedMax }

/-- "Resets the smallest maxima to high values." -/
def PingDetect.resetMinmax (p : PingDetect) : PingDetect := { p with minmax := fun _ => 1073741824 }

/-- The maximum of the frame is loud enough, and that of the first band is the loudest. -/
def PingDetect.hears (p : PingDetect) (channel : ℕ) : Prop :=
  ¬ p.currmax channel 0 < p.minmax channel ∧ p.currmax channel 0 > int32 (pdThreshold * p.minmax channel) ∧
    ∀ k < nKBands, k ≠ 0 → cfg.tooLoud (p.currmax channel k) (p.currmax channel 0) = false

instance (p : PingDetect) (channel : ℕ) : Decidable (p.hears cfg channel) := inferInstanceAs (Decidable (_ ∧ _ ∧ _))

/-- The update of the transform and of the maxima. -/
def PingDetect.follow (sample : ℕ → ℤ) (p : PingDetect) : PingDetect :=
  let spectrum := p.spectrum.update cfg sample
  { p with
    count := p.count + 1
    currmax := fun channel k =>
      if spectrum.magL1 k channel > p.currmax channel k then spectrum.magL1 k channel else p.currmax channel k
    spectrum }

/-- The end of a frame. -/
def PingDetect.endFrame (p : PingDetect) : PingDetect :=
  { p with
    count := 0
    currmax := fun _ _ => 0
    minmax := fun channel =>
      if p.currmax channel 0 < p.minmax channel then p.currmax channel 0 else p.minmax channel }

/-- `p_update`: "1 for channel 1, 2 for 2, 4 for 3, 8 for 4", and the detector after it. -/
def PingDetect.pUpdate (sample : ℕ → ℤ) (p : PingDetect) : ℕ × PingDetect :=
  let p := p.follow cfg sample
  if p.count = pingDetectFrame then
    (((List.range nchannels).map fun channel => if p.hears cfg channel then 1 <<< channel else 0).foldl (· + ·) 0, p.endFrame)
  else (0, p)

/-! ### `getPingChunk` -/

structure PingChunk where
  detected : ℕ
  pdetect : PingDetect
  lastDetected : ℕ
  lastPingIndex : ℕ → ℕ
  lastValue : ℕ → ℕ

/-- What `getChunk` starts from. -/
def PingChunk.begin (s : PingChunk) : PingChunk :=
  { s with
    lastDetected := 0
    pdetect := s.pdetect.purge
    lastPingIndex := fun _ => 0
    lastValue := fun _ => 0 }

def PingChunk.listen (D : Dataset) (i : ℕ) (s : PingChunk) : PingChunk :=
  let r := s.pdetect.pUpdate cfg fun channel => getSample D channel i
  { s with detected := r.1, pdetect := r.2 }

def PingChunk.calibrate (i : ℕ) (s : PingChunk) : PingChunk :=
  if i = dftFrame then { s with pdetect := s.pdetect.resetMinmax } else s

def PingChunk.expire (i : ℕ) (s : PingChunk) : PingChunk :=
  if i - s.lastDetected > maxPingSep then { s with lastValue := fun _ => 0, lastDetected := 0 } else s

/-- The bits of `detected`, by channel. -/
def bits : List (ℕ × ℕ) := [(0, 1), (1, 2), (2, 4), (3, 8)]

/-- The first detection of a channel. -/
def PingChunk.mark (i : ℕ) (s : PingChunk) (bit : ℕ × ℕ) : PingChunk :=
  if s.detected &&& bit.2 ≠ 0 ∧ s.lastValue bit.1 ≠ 1 then
    { s with
      lastValue := Function.update s.lastValue bit.1 1
      lastPingIndex := Function.update s.lastPingIndex bit.1 i }
  else s

def PingChunk.record (i : ℕ) (s : PingChunk) : PingChunk :=
  if s.detected ≠ 0 then bits.foldl (PingChunk.mark i) { s with lastDetected := i } else s

/-- Every channel has its first detection. -/
def PingChunk.Complete (s : PingChunk) : Prop := ∀ channel < nchannels, s.lastValue channel = 1

/-- "Too close to the start, skip it". -/
def PingChunk.Early (s : PingChunk) : Prop := ∃ channel < nchannels, s.lastPingIndex channel < envCalcFrame

instance (s : PingChunk) : Decidable s.Complete := inferInstanceAs (Decidable (∀ channel < nchannels, _))
instance (s : PingChunk) : Decidable s.Early := inferInstanceAs (Decidable (∃ channel < nchannels, _))

/-- A turn of the loop over the samples, and whether the ping is found in it. -/
def PingChunk.turn (D : Dataset) (i : ℕ) (s : PingChunk) : PingChunk × Bool :=
  let s := s.listen cfg D i
  if i < dftFrame then (s, false)
  else
    let s := ((s.calibrate i).expire i).record i
    if s.Complete then
      if s.Early then ({ s with pdetect := s.pdetect.resetMinmax, lastValue := fun _ => 0 }, false) else (s, true)
    else (s, false)

/-- The loop from `i` on, with `left` samples to come. -/
def PingChunk.search (D : Dataset) : ℕ → ℕ → PingChunk → PingChunk × Bool
  | 0, _, s => (s, false)
  | left + 1, i, s =>
    let r := s.turn cfg D i
    if r.2 then r else search D left (i + 1) r.1

/-- The result of `getChunk`, the object and the two arrays after it. -/
structure Chunk where
  result : ℤ
  object : PingChunk
  data : ℕ → ℕ → ℤ
  locations : ℕ → ℤ

def getChunk (D : Dataset) (data : ℕ → ℕ → ℤ) (locations : ℕ → ℤ) (s : PingChunk) : Chunk :=
  let r := s.begin.search cfg D D.size.toNat 0
  if r.2 then
    { result := 1
      object := r.1
      data := fun channel k =>
        if channel < nchannels ∧ k < envCalcFrame then
          getSample D channel (k + r.1.lastPingIndex channel - envCalcFrame + 1 + dftFrame / 2)
        else data channel k
      locations := fun channel =>
        if channel < nchannels then r.1.lastPingIndex channel - envCalcFrame + 1 else locations channel }
  else ⟨0, r.1, data, locations⟩

end Tortuga.PingChunks
