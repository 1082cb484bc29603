import Mathlib.Algebra.BigOperators.Intervals
import Tortuga.Rings
import Tortuga.Spectra

/-!
The "fixed point finite input response filter" (`FiniteInputResponseFilter.h`). The last samples
stand in a ring, the newest first, and every update sums them anew, in two loops: to the end of
the ring, and on from its beginning.
-/
namespace Tortuga.FirFilter
open Tortuga.AdcTypes Tortuga.Spectra
set_option linter.unusedSimpArgs false

/-- `N` is "the order of the filter (N+1 taps)". -/
structure FiniteInputResponseFilter (N nchannels : ℕ) where
  idx : ℕ
  X : ℕ → Fin nchannels → ℤ
  B : ℕ → ℤ
  Y : Fin nchannels → ℤ

variable {N nchannels : ℕ}

/-- The bits of `ACCUM`. -/
def accumBits (bits N : ℕ) : ℕ := 2 * bits + Nat.log2 (N + 1)

def FiniteInputResponseFilter.purge (s : FiniteInputResponseFilter N nchannels) : FiniteInputResponseFilter N nchannels where
  idx := N
  X _ _ := 0
  B := s.B
  Y _ := 0

def FiniteInputResponseFilter.new (coefs : ℕ → ℤ) (memory : FiniteInputResponseFilter N nchannels) :
    FiniteInputResponseFilter N nchannels := { memory with B := coefs }.purge

/-- One round of either loop, for all channels: `Y[channel] += B[i] * X[place][channel]`. -/
def FiniteInputResponseFilter.round (bits : ℕ) (s : FiniteInputResponseFilter N nchannels) (Y : Fin nchannels → ℤ) (i place : ℕ) :
    Fin nchannels → ℤ :=
  fun channel => signed (accumBits bits N) (promoted (accumBits bits N) (Y channel + promoted (2 * bits) (s.B i * s.X place channel)))

/-- The index moves back, and the sample takes the place of the oldest one. -/
def FiniteInputResponseFilter.push (sample : Fin nchannels → ℤ) (s : FiniteInputResponseFilter N nchannels) :
    FiniteInputResponseFilter N nchannels :=
  let idx := if s.idx = 0 then N else s.idx - 1
  { s with idx, X := Function.update s.X idx sample }

def FiniteInputResponseFilter.update (bits : ℕ) (sample : Fin nchannels → ℤ) (s : FiniteInputResponseFilter N nchannels) :
    FiniteInputResponseFilter N nchannels :=
  let s := s.push sample
  let bufLen := N + 1
  let first := (List.range (bufLen - s.idx)).foldl (fun Y i => s.round bits Y i (i + s.idx)) fun _ => 0
  { s with Y := (List.range' (bufLen - s.idx) s.idx).foldl (fun Y i => s.round bits Y i (i + s.idx - bufLen)) first }

/-- `operator[]`. -/
def FiniteInputResponseFilter.output (s : FiniteInputResponseFilter N nchannels) (channel : Fin nchannels) : ℤ := s.Y channel

def FiniteInputResponseFilter.call (bits : ℕ) (s : FiniteInputResponseFilter N nchannels) :
    Call nchannels → FiniteInputResponseFilter N nchannels
  | .update sample => s.update bits sample
  | .purge => s.purge

/-! ### What the filter is for -/

/-- The samples since the last `purge`, the newest first. -/
def sincePurge (calls : List (Call nchannels)) : List (Fin nchannels → ℤ) :=
  calls.foldl (fun samples c => match c with
    | .update sample => sample :: samples
    | .purge => []) []

/-- The `i`-th most recent sample of a channel, or zero. -/
def recent (samples : List (Fin nchannels → ℤ)) (i : ℕ) (channel : Fin nchannels) : ℤ := samples.getD i (fun _ => 0) channel

/-- The sum over the first taps. -/
def convolution (coefs : ℕ → ℤ) (samples : List (Fin nchannels → ℤ)) (taps : ℕ) (channel : Fin nchannels) : ℤ :=
  ∑ i ∈ Finset.range taps, coefs i * recent samples i channel

section
variable {bits : ℕ} {coefs : ℕ → ℤ} {samples : List (Fin nchannels → ℤ)} {s : FiniteInputResponseFilter N nchannels} {taps : ℕ}

/-! ### The ring -/

/-- The ring holds the samples from the index on. -/
structure Keeps (coefs : ℕ → ℤ) (samples : List (Fin nchannels → ℤ)) (s : FiniteInputResponseFilter N nchannels) : Prop where
  B : s.B = coefs
  inside : s.idx ≤ N
  holds : ∀ i ≤ N, s.X ((i + s.idx) % (N + 1)) = recent samples i

theorem Keeps.purge (B : s.B = coefs) : Keeps coefs [] s.purge where
  B := B
  inside := le_rfl
  holds _ _ := rfl

theorem Keeps.push (keeps : Keeps coefs samples s) (sample : Fin nchannels → ℤ) : Keeps coefs (sample :: samples) (s.push sample) := by
  have inside := keeps.inside
  obtain ⟨place, next, low⟩ : ∃ place, (if s.idx = 0 then N else s.idx - 1) = place ∧ place ≤ N := ⟨_, rfl, by split_ifs <;> omega⟩
  have back : ∀ i, (i + 1 + place) % (N + 1) = (i + s.idx) % (N + 1) := by
    intro i
    by_cases start : s.idx = 0
    · rw [if_pos start] at next
      rw [start, ← next, add_zero, show i + 1 + N = i + (N + 1) by omega, Nat.add_mod_right]
    · rw [if_neg start] at next
      congr 1
      omega
  refine ⟨keeps.B, ?_, ?_⟩
  · simp only [FiniteInputResponseFilter.push, next]
    exact low
  · intro i small
    simp only [FiniteInputResponseFilter.push, next]
    cases i with
    | zero =>
      rw [zero_add, Nat.mod_eq_of_lt (by omega), Function.update_self]
      rfl
    | succ i =>
      -- the places behind the index are those that the older samples had before
      have other : (i + 1 + place) % (N + 1) ≠ place := by
        have apart : (place + 0) % (N + 1) ≠ (place + (i + 1)) % (N + 1) := Rings.behind_outside (by omega) 0 (Nat.succ_pos i)
        rw [add_zero, Nat.mod_eq_of_lt (show place < N + 1 by omega)] at apart
        rw [add_comm]
        exact apart.symm
      rw [Function.update_of_ne other, back, keeps.holds i (by omega)]
      rfl

/-! ### The sum -/

/-- The two loops are one loop around the ring. -/
theorem loops_eq (inside : s.idx ≤ N) :
    (List.range' (N + 1 - s.idx) s.idx).foldl (fun Y i => s.round bits Y i (i + s.idx - (N + 1)))
        ((List.range (N + 1 - s.idx)).foldl (fun Y i => s.round bits Y i (i + s.idx)) fun _ => 0)
      = (List.range (N + 1)).foldl (fun Y i => s.round bits Y i ((i + s.idx) % (N + 1))) fun _ => 0 := by
  have first : ∀ Y, ∀ i ∈ List.range (N + 1 - s.idx), s.round bits Y i (i + s.idx) = s.round bits Y i ((i + s.idx) % (N + 1)) := by
    intro Y i there
    have below := List.mem_range.mp there
    rw [Nat.mod_eq_of_lt (by omega)]
  have second : ∀ Y, ∀ i ∈ List.range' (N + 1 - s.idx) s.idx,
      s.round bits Y i (i + s.idx - (N + 1)) = s.round bits Y i ((i + s.idx) % (N + 1)) := by
    intro Y i there
    obtain ⟨low, high⟩ := List.mem_range'_1.mp there
    rw [Nat.mod_eq_sub_mod (show N + 1 ≤ i + s.idx by omega), Nat.mod_eq_of_lt (show i + s.idx - (N + 1) < N + 1 by omega)]
  have whole : List.range (N + 1) = List.range (N + 1 - s.idx) ++ List.range' (N + 1 - s.idx) s.idx := by
    have all : N + 1 = N + 1 - s.idx + s.idx := by omega
    have joined := List.range'_append_1 (s := 0) (m := N + 1 - s.idx) (n := s.idx)
    rw [zero_add] at joined
    rw [List.range_eq_range', List.range_eq_range', joined, ← all]
  rw [List.foldl_ext _ _ _ first, List.foldl_ext _ _ _ second, whole, List.foldl_append]

theorem recent_fits (fits : ∀ sample ∈ samples, ∀ channel, Fits bits (sample channel)) (i : ℕ) (channel : Fin nchannels) :
    Fits bits (recent samples i channel) := by
  rw [recent, List.getD_eq_getElem?_getD]
  cases found : samples[i]? with
  | none => exact fits_zero bits
  | some sample => exact fits sample (List.mem_of_getElem? found) channel

/-- The bits of the taps leave room for as many products. -/
theorem taps_room (positive : 0 < bits) (small : taps ≤ N + 1) : (taps : ℤ) * 2 ^ (2 * bits - 2) ≤ signedMax (accumBits bits N) := by
  have below : ((N + 1 : ℕ) : ℤ) < 2 ^ (Nat.log2 (N + 1) + 1) := by exact_mod_cast Nat.lt_log2_self
  have few : (taps : ℤ) ≤ 2 ^ (Nat.log2 (N + 1) + 1) - 1 := by
    have cast : (taps : ℤ) ≤ ((N + 1 : ℕ) : ℤ) := by exact_mod_cast small
    linarith
  have exponent : accumBits bits N - 1 = Nat.log2 (N + 1) + 1 + (2 * bits - 2) := by
    rw [accumBits]
    omega
  have product : (1 : ℤ) ≤ 2 ^ (2 * bits - 2) := one_le_pow₀ (by norm_num)
  rw [signedMax, exponent, pow_add]
  calc (taps : ℤ) * 2 ^ (2 * bits - 2) ≤ (2 ^ (Nat.log2 (N + 1) + 1) - 1) * 2 ^ (2 * bits - 2) :=
        mul_le_mul_of_nonneg_right few (by linarith)
    _ ≤ 2 ^ (Nat.log2 (N + 1) + 1) * 2 ^ (2 * bits - 2) - 1 := by linarith

/-- Each partial sum has room in the accumulator. -/
theorem convolution_fits (positive : 0 < bits) (small : taps ≤ N + 1) (fits : ∀ i ≤ N, Fits bits (coefs i))
    (sampled : ∀ sample ∈ samples, ∀ channel, Fits bits (sample channel)) (channel : Fin nchannels) :
    Fits (accumBits bits N) (convolution coefs samples taps channel) := by
  have bound : |convolution coefs samples taps channel| ≤ (Finset.range taps).card * 2 ^ (2 * bits - 2) := by
    refine abs_sum_mul_le positive (fun i there => ?_) fun i _ => recent_fits sampled i channel
    have below := Finset.mem_range.mp there
    exact fits i (by omega)
  rw [Finset.card_range] at bound
  exact .of_abs bound (taps_room positive small)

/-- The rounds of the loop are the partial sums. -/
theorem Keeps.rounds (keeps : Keeps coefs samples s) (positive : 0 < bits) (typed : accumBits bits N ≤ 64)
    (fits : ∀ i ≤ N, Fits bits (coefs i)) (sampled : ∀ sample ∈ samples, ∀ channel, Fits bits (sample channel)) (small : taps ≤ N + 1) :
    (List.range taps).foldl (fun Y i => s.round bits Y i ((i + s.idx) % (N + 1))) (fun _ => 0) = convolution coefs samples taps := by
  induction taps with
  | zero => rfl
  | succ i ih =>
    have double : 2 * bits ≤ accumBits bits N := Nat.le_add_right _ _
    rw [List.range_succ, List.foldl_append, ih (by omega)]
    funext channel
    have next : convolution coefs samples (i + 1) channel = convolution coefs samples i channel + coefs i * recent samples i channel :=
      Finset.sum_range_succ _ _
    have sum := convolution_fits positive small fits sampled channel
    have product := Fits.mul positive (fits i (by omega)) (recent_fits sampled i channel)
    rw [next] at sum ⊢
    rw [List.foldl_cons, List.foldl_nil, FiniteInputResponseFilter.round, keeps.B, keeps.holds i (by omega),
      product.promoted (by omega) (by omega), sum.promoted (by omega) typed, sum.signed (by omega) typed]

/-- The filter after some calls: the ring keeps the samples, and the output is their sum. -/
structure Filters (coefs : ℕ → ℤ) (samples : List (Fin nchannels → ℤ)) (s : FiniteInputResponseFilter N nchannels) : Prop where
  keeps : Keeps coefs samples s
  output : s.output = convolution coefs samples (N + 1)

theorem filters_purge (B : s.B = coefs) : Filters coefs [] s.purge where
  keeps := .purge B
  output := by
    funext channel
    symm
    refine Finset.sum_eq_zero fun i _ => ?_
    exact mul_zero (coefs i)

theorem Keeps.update (keeps : Keeps coefs samples s) (positive : 0 < bits) (typed : accumBits bits N ≤ 64)
    (fits : ∀ i ≤ N, Fits bits (coefs i)) {sample : Fin nchannels → ℤ} (sampled : ∀ x ∈ sample :: samples, ∀ channel, Fits bits (x channel)) :
    Filters coefs (sample :: samples) (s.update bits sample) := by
  have pushed := keeps.push sample
  refine ⟨⟨pushed.B, pushed.inside, pushed.holds⟩, ?_⟩
  exact (loops_eq pushed.inside).trans (pushed.rounds positive typed fits sampled le_rfl)

end

/-! ### Whole runs -/

/-- A new filter after some calls. -/
def filter (bits : ℕ) (coefs : ℕ → ℤ) (memory : FiniteInputResponseFilter N nchannels) (calls : List (Call nchannels)) :
    FiniteInputResponseFilter N nchannels := calls.foldl (FiniteInputResponseFilter.call bits) (.new coefs memory)

/-- The samples of the calls are numbers of the width. -/
def Sampled (bits : ℕ) (calls : List (Call nchannels)) : Prop := ∀ sample, .update sample ∈ calls → ∀ channel, Fits bits (sample channel)

section
variable {bits : ℕ} {coefs : ℕ → ℤ} {calls : List (Call nchannels)}

theorem sincePurge_fits (sampled : Sampled bits calls) : ∀ sample ∈ sincePurge calls, ∀ channel, Fits bits (sample channel) := by
  induction calls using List.reverseRecOn with
  | nil => exact fun sample none => absurd none List.not_mem_nil
  | append_singleton calls c ih =>
    have earlier := ih fun sample there => sampled sample (List.mem_append_left _ there)
    intro sample there
    rw [sincePurge, List.foldl_append] at there
    cases c with
    | update newest =>
      rcases List.mem_cons.mp there with rfl | before
      · exact sampled sample (List.mem_append_right _ (List.mem_singleton_self _))
      · exact earlier sample before
    | purge => exact absurd there List.not_mem_nil

theorem filters_run (positive : 0 < bits) (typed : accumBits bits N ≤ 64) (fits : ∀ i ≤ N, Fits bits (coefs i))
    (memory : FiniteInputResponseFilter N nchannels) (sampled : Sampled bits calls) :
    Filters coefs (sincePurge calls) (filter bits coefs memory calls) := by
  induction calls using List.reverseRecOn with
  | nil => exact filters_purge rfl
  | append_singleton calls c ih =>
    have filters := ih fun sample there => sampled sample (List.mem_append_left _ there)
    have after := sincePurge_fits sampled
    rw [sincePurge, List.foldl_append] at after ⊢
    rw [filter, List.foldl_append]
    cases c with
    | update sample => exact filters.keeps.update positive typed fits after
    | purge => exact filters_purge filters.keeps.B

end

/-- The output is the convolution of the samples since the last `purge` with the coefficients. Each of its
    partial sums fits the bits of the accumulator, if there is a type of so many bits. -/
theorem filter_convolution {bits : ℕ} (positive : 0 < bits) (typed : accumBits bits N ≤ 64) (coefs : ℕ → ℤ)
    (fits : ∀ i ≤ N, Fits bits (coefs i)) (memory : FiniteInputResponseFilter N nchannels) (calls : List (Call nchannels))
    (sampled : Sampled bits calls) (channel : Fin nchannels) :
    (filter bits coefs memory calls).output channel = convolution coefs (sincePurge calls) (N + 1) channel ∧
      ∀ taps ≤ N + 1, Fits (accumBits bits N) (convolution coefs (sincePurge calls) taps channel) := by
  have filters := filters_run positive typed fits memory sampled
  refine ⟨congrFun filters.output channel, fun taps small => ?_⟩
  exact convolution_fits positive small fits (sincePurge_fits sampled) channel

/-- The extreme values of sixteen bits on two taps need the thirty-third bit. -/
theorem filter_convolution_extreme :
    (filter 16 (fun _ => -32768) (⟨0, fun _ _ => 7, fun _ => 7, fun _ => 7⟩ : FiniteInputResponseFilter 1 1)
      [.update fun _ => 5, .purge, .update fun _ => -32768, .update fun _ => -32768]).output 0 = 2147483648 := by
  refine (filter_convolution (by decide) (by decide) _ (fun i _ => by decide) _ _ (fun sample there channel => ?_) 0).1.trans ?_
  · have low : Fits 16 (-32768) := by decide
    have five : Fits 16 5 := by decide
    simp only [List.mem_cons, Call.update.injEq, reduceCtorEq, List.not_mem_nil, false_or, or_false, or_self] at there
    rcases there with rfl | rfl
    · exact five
    · exact low
  · decide

end Tortuga.FirFilter
