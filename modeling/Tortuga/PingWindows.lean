import Mathlib.Tactic.Ring
import Tortuga.PingChunks

/-!
When the piece that `getChunk` cuts out is the one that it says: the window of detections in which
the four channels are found, and the places that the samples come from.
-/
namespace Tortuga.PingChunks
set_option linter.unusedSimpArgs false

variable {cfg : Config} {D : Dataset} {s t : PingChunk} {i left : ℕ}

/-! ### The run -/

/-- The object before the turn `i`. -/
def PingChunk.before (cfg : Config) (D : Dataset) (s : PingChunk) : ℕ → PingChunk
  | 0 => s.begin
  | i + 1 => ((before cfg D s i).turn cfg D i).1

/-- What `p_update` reports in the turn `i`. -/
def PingChunk.heard (cfg : Config) (D : Dataset) (s : PingChunk) (i : ℕ) : ℕ :=
  ((s.before cfg D i).listen cfg D i).detected

/-- A search that finds a ping does so in one of its turns. -/
theorem search_found (found : (PingChunk.search cfg D left i (s.before cfg D i)) = (t, true)) :
    ∃ k < i + left, (s.before cfg D k).turn cfg D k = (t, true) := by
  induction left generalizing i with
  | zero => simp [PingChunk.search] at found
  | succ left ih =>
    rw [PingChunk.search] at found
    by_cases now : ((s.before cfg D i).turn cfg D i).2 = true
    · rw [if_pos now] at found
      exact ⟨i, by omega, found⟩
    · rw [if_neg now] at found
      obtain ⟨k, low, same⟩ := ih found
      exact ⟨k, by omega, same⟩

/-! ### The ends of the frames -/

/-- The last sample of a frame of the detector. -/
def FrameEnd (i : ℕ) : Prop := (i + 1) % pingDetectFrame = 0

theorem pUpdate_count (sample : ℕ → ℤ) (p : PingDetect) (low : p.count < pingDetectFrame) :
    (p.pUpdate cfg sample).2.count = (p.count + 1) % pingDetectFrame := by
  have small : p.count < 200 := low
  rw [PingDetect.pUpdate]
  by_cases full : (p.follow cfg sample).count = pingDetectFrame
  · rw [if_pos full]
    have last : p.count + 1 = pingDetectFrame := full
    rw [last]
    rfl
  · rw [if_neg full]
    have other : ¬ p.count + 1 = 200 := full
    show p.count + 1 = (p.count + 1) % 200
    omega

theorem pUpdate_zero (sample : ℕ → ℤ) (p : PingDetect) (other : p.count + 1 ≠ pingDetectFrame) :
    (p.pUpdate cfg sample).1 = 0 := by
  have short : (p.follow cfg sample).count ≠ pingDetectFrame := other
  rw [PingDetect.pUpdate, if_neg short]

/-- The detections change nothing in the detector but its minima. -/
theorem record_pdetect (i : ℕ) (s : PingChunk) : (s.record i).pdetect = s.pdetect := by
  have marks (bits : List (ℕ × ℕ)) (s : PingChunk) : (bits.foldl (PingChunk.mark i) s).pdetect = s.pdetect := by
    induction bits generalizing s with
    | nil => rfl
    | cons bit rest ih =>
      rw [List.foldl_cons, ih, PingChunk.mark]
      split <;> rfl
  rw [PingChunk.record]
  split
  · exact marks _ _
  · rfl

theorem turn_count (i : ℕ) (s : PingChunk) :
    (s.turn cfg D i).1.pdetect.count = (s.listen cfg D i).pdetect.count := by
  have expired (s : PingChunk) : (s.expire i).pdetect = s.pdetect := by
    rw [PingChunk.expire]
    split <;> rfl
  have calibrated (s : PingChunk) : (s.calibrate i).pdetect.count = s.pdetect.count := by
    rw [PingChunk.calibrate]
    split <;> rfl
  have whole : ((((s.listen cfg D i).calibrate i).expire i).record i).pdetect.count = (s.listen cfg D i).pdetect.count := by
    rw [record_pdetect, expired, calibrated]
  unfold PingChunk.turn
  dsimp only
  split
  · rfl
  · split
    · split <;> exact whole
    · exact whole

theorem before_count (s : PingChunk) (i : ℕ) : (s.before cfg D i).pdetect.count = i % pingDetectFrame := by
  induction i with
  | zero => rfl
  | succ i ih =>
    have low : (s.before cfg D i).pdetect.count < pingDetectFrame := by
      rw [ih]
      exact Nat.mod_lt _ (by decide)
    have counted : ((s.before cfg D i).listen cfg D i).pdetect.count = (i % pingDetectFrame + 1) % pingDetectFrame := by
      rw [← ih]
      exact pUpdate_count _ _ low
    rw [PingChunk.before, turn_count, counted, Nat.mod_add_mod]

theorem frameEnd_of_heard (heard : s.heard cfg D i ≠ 0) : FrameEnd i := by
  by_contra other
  refine heard (pUpdate_zero _ _ ?_)
  rw [before_count]
  have other : (i + 1) % 200 ≠ 0 := other
  show i % 200 + 1 ≠ 200
  omega

/-! ### The window -/

/-- What the detections of a turn do: a channel that is found was found before, or is found now. -/
structure Marked (i : ℕ) (s t : PingChunk) : Prop where
  lastDetected : t.lastDetected = s.lastDetected
  cells : ∀ channel, t.lastValue channel = 1 →
    (s.lastValue channel = 1 ∧ t.lastPingIndex channel = s.lastPingIndex channel) ∨ t.lastPingIndex channel = i

theorem marked_mark (i : ℕ) (s : PingChunk) (bit : ℕ × ℕ) : Marked i s (s.mark i bit) := by
  rw [PingChunk.mark]
  split
  case isFalse => exact ⟨rfl, fun _ found => .inl ⟨found, rfl⟩⟩
  case isTrue =>
    refine ⟨rfl, fun channel found => ?_⟩
    by_cases here : channel = bit.1
    · subst here
      exact .inr (Function.update_self ..)
    · simp only [Function.update_of_ne here] at found ⊢
      exact .inl ⟨found, trivial⟩

theorem Marked.trans {u : PingChunk} (first : Marked i s t) (second : Marked i t u) : Marked i s u := by
  refine ⟨second.lastDetected.trans first.lastDetected, fun channel found => ?_⟩
  rcases second.cells channel found with ⟨found, same⟩ | now
  · rcases first.cells channel found with ⟨found, same'⟩ | now
    · exact .inl ⟨found, same.trans same'⟩
    · exact .inr (same.trans now)
  · exact .inr now

theorem marked_bits (i : ℕ) (bits : List (ℕ × ℕ)) (s : PingChunk) : Marked i s (bits.foldl (PingChunk.mark i) s) := by
  induction bits generalizing s with
  | nil => exact ⟨rfl, fun _ found => .inl ⟨found, rfl⟩⟩
  | cons bit rest ih => exact (marked_mark i s bit).trans (ih _)

/-- The first detections of the window, and no frame without a detection from them on. -/
structure Window (heard : ℕ → ℕ) (i : ℕ) (s : PingChunk) : Prop where
  low : s.lastDetected ≤ i
  first : ∀ channel, s.lastValue channel = 1 → s.lastPingIndex channel ≤ s.lastDetected
  found : ∀ channel, s.lastValue channel = 1 → heard (s.lastPingIndex channel) ≠ 0
  last : ∀ channel, s.lastValue channel = 1 → heard s.lastDetected ≠ 0
  steady : ∀ channel, s.lastValue channel = 1 → ∀ k, s.lastPingIndex channel ≤ k → k ≤ s.lastDetected →
    FrameEnd k → heard k ≠ 0

section
variable {heard : ℕ → ℕ}

theorem window_none (low : s.lastDetected ≤ i) (none : ∀ channel, s.lastValue channel ≠ 1) : Window heard i s :=
  ⟨low, fun c found => absurd found (none c), fun c found => absurd found (none c), fun c found => absurd found (none c),
    fun c found => absurd found (none c)⟩

theorem Window.expire (window : Window heard i s) : Window heard i (s.expire i) ∧
    ∀ channel, (s.expire i).lastValue channel = 1 → i - (s.expire i).lastDetected ≤ maxPingSep := by
  rw [PingChunk.expire]
  split
  case isTrue => exact ⟨window_none (Nat.zero_le i) (fun _ => Nat.zero_ne_one), fun _ found => absurd found Nat.zero_ne_one⟩
  case isFalse near => exact ⟨window, fun _ _ => Nat.le_of_not_lt near⟩

/-- A detection joins the window: since the one before it there was no end of a frame. -/
theorem Window.record (window : Window heard i s) (frames : ∀ k, heard k ≠ 0 → FrameEnd k)
    (near : ∀ channel, s.lastValue channel = 1 → i - s.lastDetected ≤ maxPingSep) (now : s.detected = heard i) :
    Window heard i (s.record i) := by
  rw [PingChunk.record]
  split
  case isFalse => exact window
  case isTrue detected =>
    have heardNow : heard i ≠ 0 := now ▸ detected
    have marked := marked_bits i bits { s with lastDetected := i }
    have last : (bits.foldl (PingChunk.mark i) { s with lastDetected := i }).lastDetected = i := marked.lastDetected
    refine ⟨by rw [last], fun c found => ?_, fun c found => ?_, fun _ _ => by rwa [last], fun c found k low high ends => ?_⟩
    · rw [last]
      rcases marked.cells c found with ⟨before, same⟩ | same
      · rw [same]
        exact Nat.le_trans (window.first c before) window.low
      · exact Nat.le_of_eq same
    · rcases marked.cells c found with ⟨before, same⟩ | same
      · rw [same]
        exact window.found c before
      · rwa [same]
    · rw [last] at high
      rcases marked.cells c found with ⟨before, same⟩ | same
      · rw [same] at low
        by_cases early : k ≤ s.lastDetected
        · exact window.steady c before k low early ends
        · have close : i - s.lastDetected ≤ 333 := near c before
          have endsLast : (s.lastDetected + 1) % 200 = 0 := frames _ (window.last c before)
          have endsNow : (i + 1) % 200 = 0 := frames _ heardNow
          have endsHere : (k + 1) % 200 = 0 := ends
          have here : k = i := by omega
          rwa [here]
      · have here : k = i := by omega
        rwa [here]

/-- A turn keeps the window, and a ping that is found has all its channels in it. -/
theorem Window.turn (window : Window heard i s) (frames : ∀ k, heard k ≠ 0 → FrameEnd k)
    (now : (s.listen cfg D i).detected = heard i) : Window heard i (s.turn cfg D i).1 ∧
      ((s.turn cfg D i).2 = true → (s.turn cfg D i).1.Complete ∧ ¬ (s.turn cfg D i).1.Early) := by
  have listened : Window heard i (s.listen cfg D i) :=
    ⟨window.low, window.first, window.found, window.last, window.steady⟩
  have calibrated : Window heard i ((s.listen cfg D i).calibrate i) := by
    rw [PingChunk.calibrate]
    split
    · exact ⟨window.low, window.first, window.found, window.last, window.steady⟩
    · exact listened
  have same : (((s.listen cfg D i).calibrate i).expire i).detected = heard i := by
    rw [← now, PingChunk.expire, PingChunk.calibrate]
    split <;> split <;> rfl
  obtain ⟨expired, near⟩ := calibrated.expire
  have recorded := expired.record frames near same
  unfold PingChunk.turn
  dsimp only
  split
  · exact ⟨listened, fun found => absurd found Bool.false_ne_true⟩
  · split
    case isTrue complete =>
      split
      case isTrue =>
        exact ⟨window_none recorded.low (fun _ => Nat.zero_ne_one), fun found => absurd found Bool.false_ne_true⟩
      case isFalse early => exact ⟨recorded, fun _ => ⟨complete, early⟩⟩
    case isFalse => exact ⟨recorded, fun found => absurd found Bool.false_ne_true⟩

end

theorem window_before (cfg : Config) (D : Dataset) (s : PingChunk) (i : ℕ) : Window (s.heard cfg D) i (s.before cfg D i) := by
  induction i with
  | zero => exact window_none (Nat.le_refl 0) (fun _ => Nat.zero_ne_one)
  | succ i ih =>
    obtain ⟨low, first, found, last, steady⟩ := (ih.turn (fun _ => frameEnd_of_heard) rfl).1
    exact ⟨Nat.le_succ_of_le low, first, found, last, steady⟩

/-! ### The piece -/

/-- The search ends with a ping in which each channel has its first detection. -/
structure Found (cfg : Config) (D : Dataset) (s t : PingChunk) : Prop where
  window : ∃ i : ℕ, (i : ℤ) < D.size ∧ Window (s.heard cfg D) i t
  complete : t.Complete
  late : ¬ t.Early

theorem found_of_search (found : s.begin.search cfg D D.size.toNat 0 = (t, true)) : Found cfg D s t := by
  obtain ⟨i, low, turned⟩ := search_found (i := 0) found
  obtain ⟨window, final⟩ := (window_before cfg D s i).turn (fun _ => frameEnd_of_heard) rfl
  rw [turned] at window final
  exact ⟨⟨i, by omega, window⟩, (final rfl).1, (final rfl).2⟩

/-- A detection that is not the last has a later one at most `MAX_PING_SEP` away. -/
def Neighbours (f : ℕ → ℕ) : Prop :=
  ∀ channel < nchannels, (∀ other < nchannels, f other ≤ f channel) ∨
    ∃ other < nchannels, f channel < f other ∧ f other - f channel ≤ maxPingSep

/-- Between the first and the last of the first detections, every detection is one of them. -/
def NoRinging (heard f : ℕ → ℕ) : Prop :=
  ∀ k, (∃ channel < nchannels, f channel ≤ k) → (∃ channel < nchannels, k ≤ f channel) → heard k ≠ 0 →
    ∃ channel < nchannels, f channel = k

/-- The samples of a piece come again half a frame of the transform later. -/
def Repeats (D : Dataset) (f : ℕ → ℕ) : Prop :=
  ∀ channel < nchannels, ∀ k < envCalcFrame, getSample D channel (f channel - envCalcFrame + 1 + k) =
    getSample D channel (f channel - envCalcFrame + 1 + k + dftFrame / 2)

/-- `getChunk` comes back with 0 or 1. With 1, the piece of each channel holds its samples from the
    location on, which are in the dataset, and the first detections are neighbours. -/
structure Faithful (D : Dataset) (r : Chunk) : Prop where
  result : r.result = 0 ∨ r.result = 1
  inside : r.result = 1 → ∀ channel < nchannels, ∀ j < envCalcFrame,
    0 ≤ r.locations channel + j ∧ r.locations channel + j < D.size
  samples : r.result = 1 → ∀ channel < nchannels, ∀ j < envCalcFrame,
    r.data channel j = getSample D channel (r.locations channel + j)
  neighbours : r.result = 1 → Neighbours r.object.lastPingIndex

/-- Ends of frames are `PING_DETECT_FRAME` samples apart, and two frames more than `MAX_PING_SEP`. -/
theorem neighbours_iff (found : Found cfg D s t) :
    Neighbours t.lastPingIndex ↔ NoRinging (s.heard cfg D) t.lastPingIndex := by
  obtain ⟨⟨i, -, window⟩, complete, -⟩ := found
  have frame (channel : ℕ) (low : channel < nchannels) : (t.lastPingIndex channel + 1) % 200 = 0 :=
    frameEnd_of_heard (window.found channel (complete channel low))
  constructor
  · rintro near k ⟨channel, low, before⟩ ⟨final, lowFinal, behind⟩ heard
    have ends : (k + 1) % 200 = 0 := frameEnd_of_heard heard
    -- The induction is on the way that is left to `k`.
    induction distance : k - t.lastPingIndex channel using Nat.strong_induction_on generalizing channel with
    | h n ih =>
      by_cases here : t.lastPingIndex channel = k
      · exact ⟨channel, low, here⟩
      · rcases near channel low with last | ⟨other, lowOther, later, close⟩
        · have := last final lowFinal
          exact absurd (Nat.le_antisymm before (Nat.le_trans behind this)) here
        · have close : t.lastPingIndex other - t.lastPingIndex channel ≤ 333 := close
          have ends' := frame channel low
          have ends'' := frame other lowOther
          exact ih (k - t.lastPingIndex other) (by omega) other lowOther (by omega) rfl
  · intro quiet channel low
    by_cases last : ∀ other < nchannels, t.lastPingIndex other ≤ t.lastPingIndex channel
    · exact .inl last
    · push Not at last
      obtain ⟨other, lowOther, later⟩ := last
      have ends := frame channel low
      have ends' := frame other lowOther
      have next : FrameEnd (t.lastPingIndex channel + 200) := by
        show (t.lastPingIndex channel + 200 + 1) % 200 = 0
        omega
      have bound := window.first other (complete other lowOther)
      have heard := window.steady channel (complete channel low) (t.lastPingIndex channel + 200) (by omega) (by omega) next
      obtain ⟨found, lowFound, same⟩ := quiet _ ⟨channel, low, by omega⟩ ⟨other, lowOther, by omega⟩ heard
      refine .inr ⟨found, lowFound, by omega, ?_⟩
      show t.lastPingIndex found - t.lastPingIndex channel ≤ 333
      omega

theorem inside_of_found (found : Found cfg D s t) {channel j : ℕ} (low : channel < nchannels) (small : j < envCalcFrame) :
    0 ≤ (t.lastPingIndex channel : ℤ) - envCalcFrame + 1 + j ∧ (t.lastPingIndex channel : ℤ) - envCalcFrame + 1 + j < D.size := by
  obtain ⟨⟨i, inside, window⟩, complete, late⟩ := found
  have first := window.first channel (complete channel low)
  have bound := window.low
  have far : ¬ t.lastPingIndex channel < 1024 := fun early => late ⟨channel, low, early⟩
  have small : j < 1024 := small
  show 0 ≤ (t.lastPingIndex channel : ℤ) - 1024 + 1 + j ∧ (t.lastPingIndex channel : ℤ) - 1024 + 1 + j < D.size
  omega

/-- What `getChunk` gives of a ping that is found. -/
theorem getChunk_found (data : ℕ → ℕ → ℤ) (locations : ℕ → ℤ)
    (searched : s.begin.search cfg D D.size.toNat 0 = (t, true)) :
    (getChunk cfg D data locations s).result = 1 ∧ (getChunk cfg D data locations s).object = t ∧
      (∀ channel < nchannels, (getChunk cfg D data locations s).locations channel =
        t.lastPingIndex channel - envCalcFrame + 1) ∧
      ∀ channel < nchannels, ∀ k < envCalcFrame, (getChunk cfg D data locations s).data channel k =
        getSample D channel (k + t.lastPingIndex channel - envCalcFrame + 1 + dftFrame / 2) := by
  rw [getChunk, searched]
  exact ⟨rfl, rfl, fun _ low => if_pos low, fun _ low _ small => if_pos ⟨low, small⟩⟩

/-- The bands 26 and 128, which are 25 and 125 kHz. -/
def twoBands : Config where
  coefRe k := if k = 0 then 31113 else 0
  coefIm k := if k = 0 then 10278 else 32767
  tooLoud other first := decide (11 * other > 10 * first)

/-- A dataset that is silent up to its last sample. -/
def click : Dataset where
  size := 1200
  data unit _ offset := if unit = 1 ∧ offset = 175 then 100 else 0

/-- The object as it is constructed. -/
def quiet : PingChunk :=
  ⟨0, ⟨0, fun _ _ => 0, fun _ => signedMax, ⟨511, fun _ _ => 0, fun _ _ => 0, fun _ _ => 0⟩⟩, 0, fun _ => 0, fun _ => 0⟩

/-- Nothing has been heard before the turn `i`. -/
structure Silent (i : ℕ) (s : PingChunk) : Prop where
  data : ∀ k, ∀ channel < nchannels, s.pdetect.spectrum.data k channel = 0
  re : ∀ k, ∀ channel < nchannels, s.pdetect.spectrum.fourierRe k channel = 0
  im : ∀ k, ∀ channel < nchannels, s.pdetect.spectrum.fourierIm k channel = 0
  currmax : ∀ channel < nchannels, ∀ k, s.pdetect.currmax channel k = 0
  minmax : ∀ channel < nchannels, 0 ≤ s.pdetect.minmax channel
  calm : 600 ≤ i → ∀ channel < nchannels, s.pdetect.minmax channel = 0
  count : s.pdetect.count = i % 200
  lastDetected : s.lastDetected = 0
  lastValue : ∀ channel, s.lastValue channel = 0

theorem silent_begin : Silent 0 quiet.begin :=
  ⟨fun _ _ _ => rfl, fun _ _ _ => rfl, fun _ _ _ => rfl, fun _ _ _ => rfl, fun _ _ => Int.natCast_nonneg 2147483647, by omega, rfl, rfl, fun _ => rfl⟩

theorem click_silent {channel i : ℕ} (low : channel < nchannels) (early : i < 1199) : getSample click channel i = 0 := by
  have low : channel < 4 := low
  have early : ¬ (i >>> 10 = 1 ∧ i &&& 1023 = 175) := by
    rw [Nat.shiftRight_eq_div_pow, Nat.and_two_pow_sub_one_eq_mod i 10]
    omega
  rw [getSample, if_neg (by omega), if_neg (by show ¬ ((i : ℤ) < 0 ∨ (i : ℤ) ≥ 1200); omega)]
  exact if_neg early

theorem click_loud {channel : ℕ} (low : channel < nchannels) : getSample click channel (1199 : ℕ) = 100 := by
  have low : channel < 4 := low
  rw [getSample, if_neg (by omega), if_neg (by decide)]
  rfl

@[simp] theorem int32_zero : int32 0 = 0 := by decide

theorem follow_currmax (sample : ℕ → ℤ) (p : PingDetect) (channel k : ℕ) : (p.follow cfg sample).currmax channel k =
    if (p.follow cfg sample).spectrum.magL1 k channel > p.currmax channel k then
      (p.follow cfg sample).spectrum.magL1 k channel
    else p.currmax channel k := by
  simp only [PingDetect.follow]
  congr 1

/-- The transform of silence is silent. -/
theorem Silent.follow (silent : Silent i s) {sample : ℕ → ℤ} (zero : ∀ channel < nchannels, sample channel = 0) :
    (∀ k, ∀ channel < nchannels, (s.pdetect.follow twoBands sample).spectrum.data k channel = 0) ∧
    (∀ k, ∀ channel < nchannels, (s.pdetect.follow twoBands sample).spectrum.fourierRe k channel = 0 ∧
      (s.pdetect.follow twoBands sample).spectrum.fourierIm k channel = 0) ∧
    ∀ channel < nchannels, ∀ k, (s.pdetect.follow twoBands sample).currmax channel k = 0 := by
  have amplitudes (k channel : ℕ) (low : channel < nchannels) :
      (s.pdetect.follow twoBands sample).spectrum.fourierRe k channel = 0 ∧
        (s.pdetect.follow twoBands sample).spectrum.fourierIm k channel = 0 := by
    simp only [PingDetect.follow, Spectrum.update, silent.re k channel low, silent.im k channel low, zero channel low,
      silent.data _ channel low, sub_self, add_zero, mul_zero, int32_zero]
    exact ⟨rfl, rfl⟩
  refine ⟨fun k channel low => ?_, amplitudes, fun channel low k => ?_⟩
  · show Function.update s.pdetect.spectrum.data s.pdetect.spectrum.idx sample k channel = 0
    by_cases here : k = s.pdetect.spectrum.idx
    · rw [here, Function.update_self, zero channel low]
    · rw [Function.update_of_ne here, silent.data k channel low]
  · obtain ⟨re, im⟩ := amplitudes k channel low
    have flat : (s.pdetect.follow twoBands sample).spectrum.magL1 k channel = 0 := by
      rw [Spectrum.magL1, re, im]
      rfl
    rw [follow_currmax, flat, silent.currmax channel low, if_neg (by decide)]

/-- Silence is not a ping. -/
theorem Silent.listen (silent : Silent i s) (early : i < 1199) :
    Silent (i + 1) (s.listen twoBands click i) ∧ (s.listen twoBands click i).detected = 0 := by
  have zero : ∀ channel < nchannels, getSample click channel i = 0 := fun _ low => click_silent low early
  obtain ⟨data, amplitudes, currmax⟩ := silent.follow zero
  have counted : (s.pdetect.follow twoBands fun channel => getSample click channel i).count = i % 200 + 1 :=
    congrArg (· + 1) silent.count
  by_cases full : i % 200 + 1 = 200
  · have deaf (channel : ℕ) (low : channel < nchannels) :
        ¬ (s.pdetect.follow twoBands fun channel => getSample click channel i).hears twoBands channel := by
      rintro ⟨high, loud, -⟩
      rw [currmax channel low] at high loud
      have floor : (s.pdetect.follow twoBands fun channel => getSample click channel i).minmax channel = 0 :=
        Int.le_antisymm (Int.not_lt.mp high) (silent.minmax channel low)
      rw [floor] at loud
      exact absurd loud (by decide)
    have heard : ((List.range nchannels).map fun channel =>
        if (s.pdetect.follow twoBands fun channel => getSample click channel i).hears twoBands channel then 1 <<< channel
        else 0) = [0, 0, 0, 0] := by
      rw [List.map_congr_left (fun channel inside => if_neg (deaf channel (List.mem_range.mp inside)))]
      rfl
    have ends : (s.pdetect.follow twoBands fun channel => getSample click channel i).count = pingDetectFrame := by
      rw [counted, full]
      rfl
    have updated : s.pdetect.pUpdate twoBands (fun channel => getSample click channel i) =
        (0, (s.pdetect.follow twoBands fun channel => getSample click channel i).endFrame) := by
      rw [PingDetect.pUpdate, if_pos ends, heard]
      rfl
    have floor (channel : ℕ) (low : channel < nchannels) :
        (s.pdetect.follow twoBands fun channel => getSample click channel i).endFrame.minmax channel = 0 := by
      have least := silent.minmax channel low
      simp only [PingDetect.endFrame, currmax channel low]
      split
      · rfl
      · exact Int.le_antisymm (Int.not_lt.mp ‹_›) least
    rw [PingChunk.listen, updated]
    exact ⟨⟨data, fun k c low => (amplitudes k c low).1, fun k c low => (amplitudes k c low).2, fun _ _ _ => rfl,
      fun c low => Int.le_of_eq (floor c low).symm, fun _ => floor, by show 0 = _; omega, silent.lastDetected,
      silent.lastValue⟩, rfl⟩
  · have ends : ¬ (s.pdetect.follow twoBands fun channel => getSample click channel i).count = pingDetectFrame := by
      rw [counted]
      exact full
    have updated : s.pdetect.pUpdate twoBands (fun channel => getSample click channel i) =
        (0, s.pdetect.follow twoBands fun channel => getSample click channel i) := by
      rw [PingDetect.pUpdate, if_neg ends]
    rw [PingChunk.listen, updated]
    exact ⟨⟨data, fun k c low => (amplitudes k c low).1, fun k c low => (amplitudes k c low).2, currmax,
      silent.minmax, fun late => silent.calm (by omega), counted.trans (by omega), silent.lastDetected,
      silent.lastValue⟩, rfl⟩

theorem Silent.turn (silent : Silent i s) (early : i < 1199) :
    Silent (i + 1) (s.turn twoBands click i).1 ∧ (s.turn twoBands click i).2 = false := by
  obtain ⟨listened, none⟩ := silent.listen early
  have calibrated : Silent (i + 1) ((s.listen twoBands click i).calibrate i) := by
    rw [PingChunk.calibrate]
    split
    case isFalse => exact listened
    case isTrue here =>
      obtain ⟨data, re, im, currmax, -, -, count, detected, value⟩ := listened
      exact ⟨data, re, im, currmax, fun _ _ => Int.natCast_nonneg 1073741824, fun late => absurd (show i = 512 from here) (by omega),
        count, detected, value⟩
  have expired : Silent (i + 1) (((s.listen twoBands click i).calibrate i).expire i) := by
    rw [PingChunk.expire]
    split
    case isFalse => exact calibrated
    case isTrue =>
      obtain ⟨data, re, im, currmax, minmax, calm, count, -, -⟩ := calibrated
      exact ⟨data, re, im, currmax, minmax, calm, count, rfl, fun _ => rfl⟩
  have same : (((s.listen twoBands click i).calibrate i).expire i).detected = 0 := by
    rw [PingChunk.expire, PingChunk.calibrate]
    split <;> split <;> exact none
  have recorded : (((s.listen twoBands click i).calibrate i).expire i).record i =
      ((s.listen twoBands click i).calibrate i).expire i := by
    rw [PingChunk.record, if_neg (fun heard => heard same)]
  have incomplete : ¬ (((s.listen twoBands click i).calibrate i).expire i).Complete := by
    intro complete
    have one := complete 0 (by decide)
    rw [expired.lastValue] at one
    exact absurd one Nat.zero_ne_one
  unfold PingChunk.turn
  dsimp only
  rw [recorded]
  split
  · exact ⟨listened, rfl⟩
  · exact ⟨expired, rfl⟩

theorem silent_before (i : ℕ) (early : i ≤ 1199) : Silent i (quiet.before twoBands click i) := by
  induction i with
  | zero => exact silent_begin
  | succ i ih => exact ((ih (by omega)).turn (by omega)).1

/-- A search goes on as long as its turns find nothing. -/
theorem search_on (left n : ℕ) (none : ∀ k < n, ((s.before cfg D k).turn cfg D k).2 = false) :
    s.begin.search cfg D (n + left) 0 = (s.before cfg D n).search cfg D left n := by
  induction n generalizing left with
  | zero =>
    rw [Nat.zero_add]
    rfl
  | succ n ih =>
    rw [Nat.add_assoc, Nat.add_comm 1, ih _ (fun k low => none k (by omega)), PingChunk.search]
    rw [if_neg (by rw [none n (Nat.lt_succ_self n)]; exact Bool.false_ne_true)]
    rfl

/-- The click is heard in all channels. -/
theorem click_heard (silent : Silent 1199 s) : (s.listen twoBands click 1199).detected = 15 := by
  have loud (channel : ℕ) (low : channel < nchannels) :
      (s.pdetect.follow twoBands fun channel => getSample click channel (1199 : ℕ)).hears twoBands channel := by
    have amplitude (k : ℕ) (bands : k < nKBands) : (s.pdetect.follow twoBands fun channel =>
        getSample click channel (1199 : ℕ)).currmax channel k = if k = 0 then 125 else 99 := by
      rw [follow_currmax, silent.currmax channel low]
      simp only [PingDetect.follow, Spectrum.magL1, Spectrum.update, silent.re k channel low, silent.im k channel low,
        click_loud low, silent.data _ channel low]
      rcases Nat.lt_succ_iff_lt_or_eq.mp bands with zero | rfl
      · obtain rfl : k = 0 := by omega
        decide
      · decide
    have floor : (s.pdetect.follow twoBands fun channel => getSample click channel (1199 : ℕ)).minmax channel = 0 :=
      silent.calm (by decide) channel low
    refine ⟨?_, ?_, fun k bands other => ?_⟩
    · rw [amplitude 0 (by decide), floor]
      decide
    · rw [amplitude 0 (by decide), floor]
      decide
    · rw [amplitude 0 (by decide), amplitude k bands, if_neg other]
      rfl
  have ends : (s.pdetect.follow twoBands fun channel => getSample click channel (1199 : ℕ)).count = pingDetectFrame := by
    show s.pdetect.count + 1 = 200
    rw [silent.count]
  have heard : ((List.range nchannels).map fun channel =>
      if (s.pdetect.follow twoBands fun channel => getSample click channel (1199 : ℕ)).hears twoBands channel then
        1 <<< channel
      else 0) = [1, 2, 4, 8] := by
    rw [List.map_congr_left (fun channel inside => if_pos (loud channel (List.mem_range.mp inside)))]
    rfl
  rw [PingChunk.listen, PingDetect.pUpdate, if_pos ends, heard]
  rfl

theorem record_all (detected : s.detected = 15) (fresh : ∀ channel, s.lastValue channel = 0) {channel : ℕ}
    (low : channel < nchannels) : (s.record i).lastValue channel = 1 ∧ (s.record i).lastPingIndex channel = i := by
  have low : channel < 4 := low
  have cases : channel = 0 ∨ channel = 1 ∨ channel = 2 ∨ channel = 3 := by omega
  rcases cases with rfl | rfl | rfl | rfl <;> simp [PingChunk.record, PingChunk.mark, bits, detected, fresh, Function.update]

theorem listen_lastDetected (i : ℕ) (s : PingChunk) : (s.listen cfg D i).lastDetected = s.lastDetected := rfl

theorem expire_far (far : i - s.lastDetected > maxPingSep) :
    (s.expire i).detected = s.detected ∧ ∀ channel, (s.expire i).lastValue channel = 0 := by
  rw [PingChunk.expire, if_pos far]
  exact ⟨rfl, fun _ => rfl⟩

/-- The ping is found in the last turn. -/
theorem click_found : ∃ t, quiet.begin.search twoBands click 1200 0 = (t, true) ∧
    ∀ channel < nchannels, t.lastPingIndex channel = 1199 := by
  have silent := silent_before 1199 (Nat.le_refl _)
  have none (k : ℕ) (low : k < 1199) : ((quiet.before twoBands click k).turn twoBands click k).2 = false :=
    ((silent_before k (Nat.le_of_lt low)).turn low).2
  have search := search_on 1 1199 none
  generalize quiet.before twoBands click 1199 = s at silent search
  have calibrated : (s.listen twoBands click 1199).calibrate 1199 = s.listen twoBands click 1199 := by
    rw [PingChunk.calibrate, if_neg (by decide)]
  have last : (s.listen twoBands click 1199).lastDetected = 0 := (listen_lastDetected 1199 s).trans silent.lastDetected
  obtain ⟨detected, fresh⟩ := expire_far (i := 1199) (s := s.listen twoBands click 1199) (by rw [last]; decide)
  have cells (channel : ℕ) (low : channel < nchannels) :=
    record_all (i := 1199) (detected.trans (click_heard silent)) fresh low
  rw [← calibrated] at cells
  have complete : ((((s.listen twoBands click 1199).calibrate 1199).expire 1199).record 1199).Complete :=
    fun channel low => (cells channel low).1
  have late : ¬ ((((s.listen twoBands click 1199).calibrate 1199).expire 1199).record 1199).Early := by
    rintro ⟨channel, low, early⟩
    rw [(cells channel low).2] at early
    exact absurd early (by decide)
  have turned : s.turn twoBands click 1199 =
      ((((s.listen twoBands click 1199).calibrate 1199).expire 1199).record 1199, true) := by
    unfold PingChunk.turn
    dsimp only
    rw [if_neg (by decide), if_pos complete, if_neg late]
  refine ⟨_, search.trans ?_, fun channel low => (cells channel low).2⟩
  rw [PingChunk.search, turned]
  exact if_pos rfl

end Tortuga.PingChunks
