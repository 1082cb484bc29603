import Mathlib.Data.Fintype.Basic
import Mathlib.Data.List.FinRange
import Tortuga.AdcTypes

/-!
The sliding spectra: `SDFTSpectrum.h` keeps every bin of the transform, `SparseSDFTSpectrum.h` some
of them. Both keep the last samples of each channel in a ring, and take each new sample and the
one that leaves the ring into every sum.
-/
namespace Tortuga.Spectra
open Tortuga.AdcTypes
set_option linter.unusedSimpArgs false

/-- A complex number of integers. -/
structure Amplitude where
  real : ℤ
  imag : ℤ
  deriving DecidableEq, Repr

def Amplitude.zero : Amplitude := ⟨0, 0⟩

section
variable (bits : ℕ)

/-- The body of both loops over the bins: the sum of one bin and channel, with the difference of the
    sample that comes and the one that leaves. -/
def rotate (coef four : Amplitude) (diff : ℤ) : Amplitude :=
  let rhsRe := signed (2 * bits) (promoted (2 * bits) (four.real + diff))
  let wide := promoted (4 * bits)
  { real := signed (2 * bits) (wide (wide (coef.real * rhsRe) - wide (coef.imag * four.imag)) >>> (bits - 1))
    imag := signed (2 * bits) (wide (wide (coef.real * four.imag) + wide (coef.imag * rhsRe)) >>> (bits - 1)) }

/-- `sample[channel] - data[idx][channel]`. -/
def difference (sample old : ℤ) : ℤ := signed (2 * bits) (promoted bits (sample - old))

end

variable {N nchannels nFreqBands : ℕ} [NeZero N]

/-- `++idx; if (idx == N) idx = 0;` -/
def slide (idx : Fin N) : Fin N := if below : idx + 1 < N then ⟨idx + 1, below⟩ else 0

/-- `idx = N - 1`. -/
def lastIdx : Fin N := ⟨N - 1, Nat.sub_lt (Nat.pos_of_neZero N) Nat.one_pos⟩

/-! ### All bins -/

structure SDFTSpectrum (N nchannels : ℕ) where
  idx : Fin N
  data : Fin N → Fin nchannels → ℤ
  fourier : Fin N → Fin nchannels → Amplitude

/-- `bzero(fourier, sizeof(**fourier) * N)`: the first `N` cells of the array, where the cells of a bin
    stand together. -/
def SDFTSpectrum.purge (s : SDFTSpectrum N nchannels) : SDFTSpectrum N nchannels where
  idx := lastIdx
  data _ _ := 0
  fourier k channel := if k * nchannels + channel < N then .zero else s.fourier k channel

/-- The constructor. The amplitudes are zero from their own constructor on, and `data` holds what was there. -/
def SDFTSpectrum.new (garbage : Fin N → Fin nchannels → ℤ) : SDFTSpectrum N nchannels :=
  SDFTSpectrum.purge ⟨lastIdx, garbage, fun _ _ => .zero⟩

/-- `coefOf k` is what the constructor computes for the bin `k`. -/
def SDFTSpectrum.update (bits : ℕ) (coefOf : ℤ → Amplitude) (sample : Fin nchannels → ℤ) (s : SDFTSpectrum N nchannels) :
    SDFTSpectrum N nchannels where
  idx := slide s.idx
  data i := if i = s.idx then sample else s.data i
  fourier k channel := rotate bits (coefOf k) (s.fourier k channel) (difference bits (sample channel) (s.data s.idx channel))

def SDFTSpectrum.getAmplitude (s : SDFTSpectrum N nchannels) (k : Fin N) (channel : Fin nchannels) : Amplitude :=
  s.fourier k channel

/-! ### Some bins -/

structure SparseSDFTSpectrum (N nchannels nFreqBands : ℕ) where
  idx : Fin N
  data : Fin N → Fin nchannels → ℤ
  fourier : Fin nFreqBands → Fin nchannels → Amplitude
  kBands : Fin nFreqBands → ℤ

def SparseSDFTSpectrum.purge (s : SparseSDFTSpectrum N nchannels nFreqBands) : SparseSDFTSpectrum N nchannels nFreqBands where
  idx := lastIdx
  data _ _ := 0
  fourier _ _ := .zero
  kBands := s.kBands

def SparseSDFTSpectrum.new (kBands : Fin nFreqBands → ℤ) (garbage : Fin N → Fin nchannels → ℤ) :
    SparseSDFTSpectrum N nchannels nFreqBands := SparseSDFTSpectrum.purge ⟨lastIdx, garbage, fun _ _ => .zero, kBands⟩

def SparseSDFTSpectrum.update (bits : ℕ) (coefOf : ℤ → Amplitude) (sample : Fin nchannels → ℤ)
    (s : SparseSDFTSpectrum N nchannels nFreqBands) : SparseSDFTSpectrum N nchannels nFreqBands where
  idx := slide s.idx
  data i := if i = s.idx then sample else s.data i
  fourier kIdx channel :=
    rotate bits (coefOf (s.kBands kIdx)) (s.fourier kIdx channel) (difference bits (sample channel) (s.data s.idx channel))
  kBands := s.kBands

def SparseSDFTSpectrum.getAmplitudeForBinIndex (s : SparseSDFTSpectrum N nchannels nFreqBands) (kIdx : Fin nFreqBands)
    (channel : Fin nchannels) : Amplitude := s.fourier kIdx channel

/-- The first index with the bin, or none (`-1`). -/
def SparseSDFTSpectrum.getBinIndexForBin (s : SparseSDFTSpectrum N nchannels nFreqBands) (k : ℤ) : Option (Fin nFreqBands) :=
  (List.finRange nFreqBands).find? fun kIdx => s.kBands kIdx = k

def SparseSDFTSpectrum.getAmplitude (s : SparseSDFTSpectrum N nchannels nFreqBands) (k : ℤ) (channel : Fin nchannels) : Option Amplitude :=
  (s.getBinIndexForBin k).map fun kIdx => s.fourier kIdx channel

/-! ### Runs -/

/-- The calls of the interface `Spectrum`. Filters have the same. -/
inductive Call (nchannels : ℕ) where
  | update (sample : Fin nchannels → ℤ)
  | purge

section
variable (bits : ℕ) (coefOf : ℤ → Amplitude)

def SDFTSpectrum.call (s : SDFTSpectrum N nchannels) : Call nchannels → SDFTSpectrum N nchannels
  | .update sample => s.update bits coefOf sample
  | .purge => s.purge

def SparseSDFTSpectrum.call (s : SparseSDFTSpectrum N nchannels nFreqBands) : Call nchannels → SparseSDFTSpectrum N nchannels nFreqBands
  | .update sample => s.update bits coefOf sample
  | .purge => s.purge

/-- A new object after some calls. -/
def dense (garbage : Fin N → Fin nchannels → ℤ) (calls : List (Call nchannels)) : SDFTSpectrum N nchannels :=
  calls.foldl (SDFTSpectrum.call bits coefOf) (.new garbage)

def sparse (kBands : Fin nFreqBands → ℤ) (garbage : Fin N → Fin nchannels → ℤ) (calls : List (Call nchannels)) :
    SparseSDFTSpectrum N nchannels nFreqBands := calls.foldl (SparseSDFTSpectrum.call bits coefOf) (.new kBands garbage)

end

/-- For every bin that the sparse spectrum has, it has what the dense one has. -/
def SameAmplitudes (d : SDFTSpectrum N nchannels) (s : SparseSDFTSpectrum N nchannels nFreqBands) : Prop :=
  ∀ (k : Fin N) (kIdx : Fin nFreqBands) (channel : Fin nchannels), s.kBands kIdx = k →
    s.getAmplitudeForBinIndex kIdx channel = d.getAmplitude k channel ∧ s.getAmplitude k channel = some (d.getAmplitude k channel)

/-- The objects have the same amplitudes after the calls, and are as new after a last `purge`. -/
def Agrees (bits : ℕ) (coefOf : ℤ → Amplitude) (kBands : Fin nFreqBands → ℤ) (garbage : Fin N → Fin nchannels → ℤ)
    (calls : List (Call nchannels)) : Prop :=
  SameAmplitudes (dense bits coefOf garbage calls) (sparse bits coefOf kBands garbage calls) ∧
    (calls.getLast? = some .purge →
      dense bits coefOf garbage calls = .new garbage ∧ sparse bits coefOf kBands garbage calls = .new kBands garbage)

/-- The cells that `purge` does not reach are zero. -/
def SDFTSpectrum.Clear (s : SDFTSpectrum N nchannels) : Prop :=
  ∀ (k : Fin N) (channel : Fin nchannels), N ≤ k * nchannels + channel → s.fourier k channel = .zero

section
variable {bits : ℕ} {coefOf : ℤ → Amplitude} {kBands : Fin nFreqBands → ℤ} {garbage : Fin N → Fin nchannels → ℤ}
  {d : SDFTSpectrum N nchannels} {s : SparseSDFTSpectrum N nchannels nFreqBands} {calls : List (Call nchannels)}

/-! ### Single calls -/

/-- The rings are the same, and so are the sums of each bin that both have. -/
structure Twins (kBands : Fin nFreqBands → ℤ) (d : SDFTSpectrum N nchannels) (s : SparseSDFTSpectrum N nchannels nFreqBands) : Prop where
  bands : s.kBands = kBands
  idx : s.idx = d.idx
  data : s.data = d.data
  fourier : ∀ (k : Fin N) kIdx channel, kBands kIdx = k → s.fourier kIdx channel = d.fourier k channel

theorem new_eq (garbage : Fin N → Fin nchannels → ℤ) : SDFTSpectrum.new garbage = ⟨lastIdx, fun _ _ => 0, fun _ _ => .zero⟩ := by
  simp only [SDFTSpectrum.new, SDFTSpectrum.purge, ite_self]

theorem twins_new (garbage : Fin N → Fin nchannels → ℤ) : Twins kBands (.new garbage) (.new kBands garbage) where
  bands := rfl
  idx := rfl
  data := rfl
  fourier k kIdx channel _ := by
    rw [new_eq]
    rfl

theorem Twins.update (twins : Twins kBands d s) (sample : Fin nchannels → ℤ) :
    Twins kBands (d.update bits coefOf sample) (s.update bits coefOf sample) where
  bands := twins.bands
  idx := by simp only [SDFTSpectrum.update, SparseSDFTSpectrum.update, twins.idx]
  data := by simp only [SDFTSpectrum.update, SparseSDFTSpectrum.update, twins.idx, twins.data]
  fourier k kIdx channel same := by
    simp only [SDFTSpectrum.update, SparseSDFTSpectrum.update, twins.bands, same, twins.idx, twins.data,
      twins.fourier k kIdx channel same]

/-- What is left of the dense spectrum is what `purge` does not reach. -/
theorem purge_eq_new_iff : d.purge = .new garbage ↔ d.Clear := by
  rw [new_eq]
  constructor
  · intro same k channel beyond
    have cell := congrFun (congrFun (congrArg SDFTSpectrum.fourier same) k) channel
    simpa only [SDFTSpectrum.purge, if_neg (Nat.not_lt.mpr beyond)] using cell
  · intro clear
    simp only [SDFTSpectrum.purge, SDFTSpectrum.mk.injEq, true_and]
    funext k channel
    by_cases below : k * nchannels + channel < N
    · rw [if_pos below]
    · rw [if_neg below]
      exact clear k channel (Nat.not_lt.mp below)

theorem Twins.sparse_purge (twins : Twins kBands d s) : s.purge = .new kBands garbage := by
  simp only [SparseSDFTSpectrum.purge, SparseSDFTSpectrum.new, twins.bands]

omit [NeZero N] in
theorem Twins.amplitudes (twins : Twins kBands d s) : SameAmplitudes d s := by
  intro k kIdx channel same
  rw [twins.bands] at same
  refine ⟨twins.fourier k kIdx channel same, ?_⟩
  rw [SparseSDFTSpectrum.getAmplitude, SparseSDFTSpectrum.getBinIndexForBin, twins.bands]
  cases found : (List.finRange nFreqBands).find? fun kIdx => kBands kIdx = k with
  | none =>
    have never := List.find?_eq_none.mp found kIdx (List.mem_finRange kIdx)
    simp [same] at never
  | some first =>
    have there := List.find?_some found
    rw [Option.map_some, twins.fourier k first channel (by simpa using there)]
    rfl

/-! ### Whole runs -/

theorem dense_append (calls : List (Call nchannels)) (c : Call nchannels) :
    dense bits coefOf garbage (calls ++ [c]) = (dense bits coefOf garbage calls).call bits coefOf c := by
  rw [dense, dense, List.foldl_append]
  rfl

theorem sparse_append (calls : List (Call nchannels)) (c : Call nchannels) :
    sparse bits coefOf kBands garbage (calls ++ [c]) = (sparse bits coefOf kBands garbage calls).call bits coefOf c := by
  rw [sparse, sparse, List.foldl_append]
  rfl

/-- Each `purge` finds the cells zero that it does not reach. -/
def Clean (bits : ℕ) (coefOf : ℤ → Amplitude) (garbage : Fin N → Fin nchannels → ℤ) (calls : List (Call nchannels)) : Prop :=
  ∀ before, before ++ [.purge] <+: calls → (dense bits coefOf garbage before).Clear

theorem Clean.twins (clean : Clean bits coefOf garbage calls) (before : List (Call nchannels)) (first : before <+: calls) :
    Twins kBands (dense bits coefOf garbage before) (sparse bits coefOf kBands garbage before) := by
  induction before using List.reverseRecOn with
  | nil => exact twins_new garbage
  | append_singleton before c ih =>
    have twins := ih ((List.prefix_append _ _).trans first)
    rw [dense_append, sparse_append]
    cases c with
    | update sample => exact twins.update sample
    | purge =>
      have clear := clean before first
      rw [SDFTSpectrum.call, SparseSDFTSpectrum.call, purge_eq_new_iff.mpr clear, twins.sparse_purge]
      exact twins_new garbage

end

/-- The spectra agree all along a run, and are as new after each `purge`, just when each `purge` of the
    dense one finds the cells zero that it does not reach. -/
theorem spectra_agree (bits : ℕ) (coefOf : ℤ → Amplitude) (kBands : Fin nFreqBands → ℤ) (garbage : Fin N → Fin nchannels → ℤ)
    (calls : List (Call nchannels)) :
    (∀ before, before <+: calls → Agrees bits coefOf kBands garbage before) ↔ Clean bits coefOf garbage calls := by
  constructor
  · intro agrees before first
    have new := ((agrees (before ++ [.purge]) first).2 List.getLast?_concat).1
    rw [dense_append] at new
    exact purge_eq_new_iff.mp new
  · intro clean before first
    have twins : Twins kBands _ _ := clean.twins before first
    refine ⟨twins.amplitudes, fun last => ?_⟩
    obtain ⟨earlier, rfl⟩ := List.getLast?_eq_some_iff.mp last
    have twins : Twins kBands _ _ := clean.twins earlier ((List.prefix_append _ _).trans first)
    rw [dense_append, sparse_append]
    exact ⟨purge_eq_new_iff.mpr (clean earlier first), twins.sparse_purge⟩

/-- With one channel `purge` reaches every cell. -/
theorem clean_of_single (single : nchannels ≤ 1) (bits : ℕ) (coefOf : ℤ → Amplitude) (garbage : Fin N → Fin nchannels → ℤ)
    (calls : List (Call nchannels)) : Clean bits coefOf garbage calls := by
  intro before _ k channel beyond
  have none : (channel : ℕ) = 0 := by omega
  have inside : (k : ℕ) * nchannels ≤ k * 1 := Nat.mul_le_mul_left k single
  omega

/-- The coefficients of a window of two samples, in sixteen bits. -/
def halfTurn (k : ℤ) : Amplitude := if k = 0 then ⟨32767, 0⟩ else ⟨-32767, 0⟩

theorem spectra_agree_window : Agrees 16 halfTurn (fun _ : Fin 1 => 1) (fun (_ : Fin 2) (_ : Fin 4) => 7) [.update fun _ => 100] := by
  refine (spectra_agree 16 halfTurn _ _ [.update fun _ => 100]).mpr (fun before first => ?_) _ List.prefix_rfl
  have length := first.length_le
  rw [List.length_append, List.length_singleton, List.length_singleton] at length
  obtain rfl : before = [] := List.eq_nil_of_length_eq_zero (by omega)
  obtain ⟨rest, same⟩ := first
  cases same

/-- With two channels the second half of the dense sums outlives `purge`. -/
theorem spectra_stale : let calls : List (Call 2) := [.update fun _ => 100, .purge]
    (dense (N := 2) 16 halfTurn (fun _ _ => 0) calls).getAmplitude 1 0 = ⟨-100, 0⟩ ∧
      (sparse (N := 2) 16 halfTurn (fun _ : Fin 1 => 1) (fun _ _ => 0) calls).getAmplitude 1 0 = some .zero ∧
      ¬ Agrees (N := 2) 16 halfTurn (fun _ : Fin 1 => 1) (fun _ _ => 0) calls := by
  intro calls
  have stale : (dense (N := 2) 16 halfTurn (fun _ _ => 0) calls).getAmplitude 1 0 = ⟨-100, 0⟩ := by decide +kernel
  have zero : (sparse (N := 2) 16 halfTurn (fun _ : Fin 1 => 1) (fun _ _ => 0) calls).getAmplitude 1 0 = some .zero := by decide +kernel
  refine ⟨stale, zero, fun agrees => ?_⟩
  obtain ⟨_, same⟩ := agrees.1 1 0 0 rfl
  have clash := zero.symm.trans (same.trans (congrArg some stale))
  exact absurd clash (by decide)

end Tortuga.Spectra
