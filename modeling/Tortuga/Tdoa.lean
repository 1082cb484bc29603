import Mathlib.Data.Int.Interval
import Mathlib.Data.List.GetD
import Tortuga.AdcTypes
import Tortuga.Correlations
import Tortuga.RunningMaxima
import Tortuga.SonarChunks

/-!
The time difference of two chunks by cross-correlation (`TDOA.cpp`). A `long int` that overflows
has no value; the sample indices do not overflow.
-/
namespace Tortuga.Tdoa
open Tortuga.AdcTypes Tortuga.Correlations Tortuga.RunningMaxima Tortuga.SonarChunks
set_option linter.unusedSimpArgs false

/-- A value of the type `long int`. -/
def long (longBits : ℕ) (x : ℤ) : Option ℤ := if Fits longBits x then some x else none

def gMinIndex (k : ℤ) : ℤ := max 0 k

def gMaxIndex (f g : SonarChunk) (k : ℤ) : ℤ := if (g.size : ℤ) > k + f.size then k + f.size else g.size

/-- The inner loop. -/
def accumulate (longBits : ℕ) (f g : SonarChunk) (k : ℤ) : Option ℤ :=
  (List.range (gMaxIndex f g k - gMinIndex k).toNat).foldlM
    (fun accum (n : ℕ) => long longBits (accum + (f.get (gMinIndex k + n - k)).toInt * (g.get (gMinIndex k + n)).toInt)) 0

/-- The lags of the outer loop. -/
def lags (f g : SonarChunk) : List ℤ := (List.range (f.size + g.size)).map fun (n : ℕ) => -(f.size : ℤ) + n

/-- The outer loop: `max` and `maxindex`. -/
def search (longBits : ℕ) (f g : SonarChunk) : Option (ℤ × ℤ) :=
  (lags f g).foldlM (fun (max, maxindex) k => do
    let accum ← accumulate longBits f g k
    return if accum > max then (accum, k) else (max, maxindex)) (signedMin longBits, 0)

def tdoa_xcorr (longBits : ℕ) (f g : SonarChunk) : Option ℤ := do
  let (_, maxindex) ← search longBits f g
  return maxindex - f.startIndex.toInt + g.startIndex.toInt

/-! ### What the lag is for -/

/-- Samples, with zeros before and after them. -/
def signal (samples : List Int16) (i : ℤ) : ℤ := if 0 ≤ i then (samples.getD i.toNat 0).toInt else 0

/-- The sum of the products up to a sample of `g`, if `f` is moved by `k`. -/
def partialSum (f g : List Int16) (k : ℤ) (m : ℕ) : ℤ := ∑ i ∈ Finset.range m, signal f (i - k) * signal g i

/-- The exact correlation sum at a lag. -/
def correlation (f g : List Int16) (k : ℤ) : ℤ := partialSum f g k g.length

/-- At this lag a sample of `f` stands at the same place as one of `g`. -/
def Overlap (f g : List Int16) (k : ℤ) : Prop := ∃ i : ℤ, (0 ≤ i ∧ i < g.length) ∧ 0 ≤ i - k ∧ i - k < f.length

/-- A lag at which the sum is maximal. -/
def Maximal (f g : List Int16) (k : ℤ) : Prop := Overlap f g k ∧ ∀ j, Overlap f g j → correlation f g j ≤ correlation f g k

/-- The samples are zero except for a pulse, which begins at a place. -/
structure Pulse (samples pulse : List Int16) (place : ℕ) : Prop where
  nonzero : ∃ d ∈ pulse, d ≠ 0
  whole : ∃ rest, samples = List.replicate place 0 ++ (pulse ++ List.replicate rest 0)

/-- The result is a lag with a maximal sum, and for one pulse in both chunks the difference of its places. -/
structure Correct (longBits : ℕ) (f g : SonarChunk) : Prop where
  maximal : ∃ k, Maximal f.samples g.samples k ∧ tdoa_xcorr longBits f g = some (k - f.startIndex.toInt + g.startIndex.toInt)
  pulse : ∀ p a b, Pulse f.samples p a → Pulse g.samples p b →
    tdoa_xcorr longBits f g = some ((g.startIndex.toInt + b) - (f.startIndex.toInt + a))

/-- No sum on the way leaves the type. -/
def Room (longBits : ℕ) (f g : List Int16) : Prop := ∀ k, ∀ m ≤ g.length, Fits longBits (partialSum f g k m)

section
variable {f g p : List Int16} {k : ℤ} {m a : ℕ} {longBits : ℕ}

/-! ### Signals -/

theorem signal_nat (samples : List Int16) (i : ℕ) : signal samples i = (samples.getD i 0).toInt := by
  rw [signal, if_pos (Int.natCast_nonneg i), Int.toNat_natCast]

theorem signal_negative {i : ℤ} (negative : i < 0) : signal f i = 0 := if_neg (not_le.mpr negative)

theorem signal_behind {i : ℤ} (behind : f.length ≤ i) : signal f i = 0 := by
  rw [signal, if_pos (by omega), List.getD_eq_default _ _ (by omega)]
  rfl

theorem fits_int16 (d : Int16) : Fits 16 d.toInt := by
  have low := d.le_toInt
  have high := d.toInt_lt
  exact ⟨low, by rw [signedMax]; omega⟩

theorem signal_fits (f : List Int16) (i : ℤ) : Fits 16 (signal f i) := by
  rw [signal]
  split
  · exact fits_int16 _
  · exact fits_zero 16

/-- A lag without overlap has no sum. -/
theorem partialSum_apart (apart : ¬ Overlap f g k) (m : ℕ) : partialSum f g k m = 0 := by
  refine Finset.sum_eq_zero fun i _ => ?_
  by_cases inside : (i : ℤ) < g.length
  · by_cases before : (i : ℤ) - k < 0
    · rw [signal_negative before, zero_mul]
    · have behind : f.length ≤ (i : ℤ) - k := by
        by_contra within
        exact apart ⟨i, ⟨Int.natCast_nonneg i, inside⟩, not_lt.mp before, not_le.mp within⟩
      rw [signal_behind behind, zero_mul]
  · rw [signal_behind (f := g) (not_lt.mp inside), mul_zero]

theorem overlap_of_pos (positive : 0 < correlation f g k) : Overlap f g k := by
  by_contra apart
  rw [correlation, partialSum_apart apart] at positive
  exact lt_irrefl 0 positive

/-- The sums of 64 bits have room for all chunks. -/
theorem room_of_length (short : g.length < 2 ^ 33) : Room 64 f g := by
  intro k m inside
  have bound : |partialSum f g k m| ≤ (Finset.range m).card * 2 ^ (2 * 16 - 2) :=
    abs_sum_mul_le (by decide) (fun i _ => signal_fits f (i - k)) fun i _ => signal_fits g i
  rw [Finset.card_range] at bound
  refine Fits.of_abs bound ?_
  have few : (m : ℤ) < 2 ^ 33 := by exact_mod_cast inside.trans_lt short
  rw [signedMax]
  omega

/-! ### Pulses -/

theorem signal_support (f : List Int16) : (signal f).support.Finite := by
  refine (Set.finite_Ico (0 : ℤ) f.length).subset fun i some => ?_
  by_contra outside
  refine some ?_
  by_cases negative : i < 0
  · exact signal_negative negative
  · exact signal_behind (not_lt.mp fun less => outside ⟨not_lt.mp negative, less⟩)

theorem correlation_eq_finsum (f g : List Int16) (k : ℤ) : correlation f g k = ∑ᶠ i, signal f (i - k) * signal g i := by
  have image : correlation f g k = ∑ i ∈ (Finset.range g.length).image ((↑) : ℕ → ℤ), signal f (i - k) * signal g i := by
    rw [Finset.sum_image fun i _ j _ => Int.ofNat_inj.mp]
    rfl
  rw [image]
  refine (finsum_eq_finsetSum_of_support_subset _ fun i some => ?_).symm
  have nonzero : signal g i ≠ 0 := right_ne_zero_of_mul some
  have low : 0 ≤ i := not_lt.mp fun negative => nonzero (signal_negative negative)
  have high : i < g.length := not_le.mp fun behind => nonzero (signal_behind behind)
  rw [Finset.coe_image]
  exact ⟨i.toNat, Finset.mem_coe.mpr (Finset.mem_range.mpr (by omega)), Int.toNat_of_nonneg low⟩

theorem Pulse.signal (pulse : Pulse f p a) (i : ℤ) : signal f i = Tdoa.signal p (i - a) := by
  obtain ⟨rest, rfl⟩ := pulse.whole
  by_cases before : i < a
  · rw [signal_negative (show i - a < 0 by omega), Tdoa.signal]
    split
    · rw [List.getD_append _ _ _ _ (by rw [List.length_replicate]; omega), List.getD_replicate _ (by omega)]
      rfl
    · rfl
  · rw [Tdoa.signal, Tdoa.signal, if_pos (by omega), if_pos (by omega),
      List.getD_append_right _ _ _ _ (by rw [List.length_replicate]; omega), List.length_replicate]
    have place : i.toNat - a = (i - a).toNat := by omega
    rw [place]
    by_cases inside : (i - a).toNat < p.length
    · rw [List.getD_append _ _ _ _ inside]
    · rw [List.getD_append_right _ _ _ _ (not_lt.mp inside), List.getD_eq_default p _ (not_lt.mp inside)]
      rw [List.getD_eq_getElem?_getD, List.getElem?_replicate]
      split <;> rfl

theorem Pulse.signal_ne (pulse : Pulse f p a) : Tdoa.signal p ≠ 0 := by
  obtain ⟨d, there, nonzero⟩ := pulse.nonzero
  obtain ⟨i, inside, rfl⟩ := List.getElem_of_mem there
  intro zero
  have value := congrFun zero i
  rw [signal_nat, List.getD_eq_getElem _ _ inside] at value
  exact nonzero (Int16.toInt_inj.mp value)

/-- The correlation of two chunks with the same pulse is that of the pulse with itself, moved. -/
theorem Pulse.correlation {b : ℕ} (first : Pulse f p a) (second : Pulse g p b) (k : ℤ) :
    Tdoa.correlation f g k = ∑ᶠ i, Tdoa.signal p (i + (b - a - k)) * Tdoa.signal p i := by
  rw [correlation_eq_finsum, ← finsum_comp_equiv (Equiv.addRight (b : ℤ))]
  refine finsum_congr fun i => ?_
  rw [first.signal, second.signal, Equiv.coe_addRight, add_sub_cancel_right]
  congr 2
  ring

theorem Pulse.correlation_lt {b : ℕ} (first : Pulse f p a) (second : Pulse g p b) (other : k ≠ b - a) :
    Tdoa.correlation f g k < Tdoa.correlation f g (b - a) := by
  rw [first.correlation second, first.correlation second, sub_self]
  simp only [add_zero]
  exact Correlations.correlation_lt (signal_support p) first.signal_ne (sub_ne_zero.mpr other.symm)

theorem Pulse.energy {b : ℕ} (first : Pulse f p a) (second : Pulse g p b) : 0 < Tdoa.correlation f g (b - a) := by
  obtain ⟨i, some⟩ := Function.ne_iff.mp first.signal_ne
  rw [first.correlation second, sub_self]
  simp only [add_zero]
  refine finsum_pos (fun i => mul_self_nonneg _) ⟨i, mul_self_pos.mpr some⟩ ?_
  exact (signal_support p).subset (Function.support_mul_subset_right _ _)

/-- The lag at which the pulses stand at the same place is the only one with a maximal sum. -/
theorem Pulse.unique {b : ℕ} (first : Pulse f p a) (second : Pulse g p b) (maximal : Maximal f g k) : k = b - a := by
  by_contra other
  have overlap := overlap_of_pos (first.energy second)
  exact absurd (maximal.2 _ overlap) (not_le.mpr (first.correlation_lt second other))

end

/-! ### The loops -/

section
variable {f g : SonarChunk} {k : ℤ} {longBits : ℕ}

@[simp] theorem samples_length (s : SonarChunk) : s.samples.length = s.size := by rw [SonarChunk.samples, List.length_map, List.length_range]

theorem get_eq (s : SonarChunk) {i : ℤ} (low : 0 ≤ i) (high : i < s.size) : (s.get i).toInt = signal s.samples i := by
  have inside : i.toNat < s.samples.length := by
    rw [samples_length]
    omega
  rw [signal, if_pos low, List.getD_eq_getElem _ _ inside, SonarChunk.get]
  simp only [SonarChunk.samples, List.getElem_map, List.getElem_range]

/-- A loop that sums goes on as long as the sums fit. -/
theorem foldlM_long (term : ℕ → ℤ) (n : ℕ) :
    (List.range n).foldlM (fun accum j => long longBits (accum + term j)) 0 =
      if ∀ m ≤ n, Fits longBits (∑ j ∈ Finset.range m, term j) then some (∑ j ∈ Finset.range n, term j) else none := by
  induction n with
  | zero =>
    have empty : ∀ m ≤ 0, Fits longBits (∑ j ∈ Finset.range m, term j) := by
      intro m none
      obtain rfl := Nat.le_zero.mp none
      exact fits_zero longBits
    rw [if_pos empty]
    rfl
  | succ n ih =>
    rw [List.range_succ, List.foldlM_append, ih]
    by_cases earlier : ∀ m ≤ n, Fits longBits (∑ j ∈ Finset.range m, term j)
    · rw [if_pos earlier, Finset.sum_range_succ]
      simp only [Option.bind_eq_bind, Option.bind_some, List.foldlM_cons, List.foldlM_nil, long]
      by_cases last : Fits longBits (∑ j ∈ Finset.range n, term j + term n)
      · have all : ∀ m ≤ n + 1, Fits longBits (∑ j ∈ Finset.range m, term j) := by
          intro m inside
          rcases Nat.le_succ_iff.mp inside with before | rfl
          · exact earlier m before
          · rwa [Finset.sum_range_succ]
        rw [if_pos last, if_pos all]
        rfl
      · have some : ¬ ∀ m ≤ n + 1, Fits longBits (∑ j ∈ Finset.range m, term j) := by
          intro all
          have whole := all (n + 1) le_rfl
          rw [Finset.sum_range_succ] at whole
          exact last whole
        rw [if_neg last, if_neg some]
        rfl
    · have some : ¬ ∀ m ≤ n + 1, Fits longBits (∑ j ∈ Finset.range m, term j) :=
        fun all => earlier fun m inside => all m (Nat.le_succ_of_le inside)
      rw [if_neg earlier, if_neg some]
      rfl

/-- The sums of the inner loop are those over the whole of `g`. -/
theorem partialSum_loop (f g : SonarChunk) (k : ℤ) {n : ℕ} (inside : (n : ℤ) ≤ gMaxIndex f g k - gMinIndex k) :
    ∑ j ∈ Finset.range n, (f.get (gMinIndex k + j - k)).toInt * (g.get (gMinIndex k + j)).toInt =
      partialSum f.samples g.samples k ((gMinIndex k).toNat + n) := by
  have start : ((gMinIndex k).toNat : ℤ) = gMinIndex k := Int.toNat_of_nonneg (le_max_left 0 k)
  rw [partialSum, Finset.sum_range_add]
  have before : ∑ i ∈ Finset.range (gMinIndex k).toNat, signal f.samples (i - k) * signal g.samples i = 0 := by
    refine Finset.sum_eq_zero fun i there => ?_
    have below := Finset.mem_range.mp there
    rw [signal_negative (show (i : ℤ) - k < 0 by rw [gMinIndex] at below; omega), zero_mul]
  rw [before, zero_add]
  refine Finset.sum_congr rfl fun j there => ?_
  have below := Finset.mem_range.mp there
  rw [gMaxIndex, gMinIndex] at inside
  rw [get_eq f (by rw [gMinIndex]; omega) (by rw [gMinIndex]; split_ifs at inside <;> omega), get_eq g (by rw [gMinIndex]; omega)
    (by rw [gMinIndex]; split_ifs at inside <;> omega), Nat.cast_add, start]

/-- Products that are zero do not change the sum. -/
theorem partialSum_flat {f g : List Int16} {m n : ℕ} (le : m ≤ n)
    (flat : ∀ i, m ≤ i → i < n → signal f (i - k) * signal g i = 0) : partialSum f g k n = partialSum f g k m := by
  obtain ⟨more, rfl⟩ := Nat.exists_eq_add_of_le le
  rw [partialSum, Finset.sum_range_add, Finset.sum_eq_zero (s := Finset.range more), add_zero, partialSum]
  intro j there
  have below := Finset.mem_range.mp there
  exact flat (m + j) (Nat.le_add_right m j) (by omega)

theorem gMaxIndex_le (f g : SonarChunk) (k : ℤ) : gMaxIndex f g k ≤ g.size := by
  rw [gMaxIndex]
  split_ifs <;> omega

theorem Overlap.index (overlap : Overlap f.samples g.samples k) : gMinIndex k < gMaxIndex f g k := by
  obtain ⟨i, ⟨low, high⟩, before, after⟩ := overlap
  rw [samples_length] at high after
  rw [gMinIndex, gMaxIndex]
  split_ifs <;> omega

/-- Chunks with an index for the inner loop overlap there. -/
theorem overlap_of_index (index : gMinIndex k < gMaxIndex f g k) : Overlap f.samples g.samples k := by
  refine ⟨gMinIndex k, ⟨le_max_left 0 k, ?_⟩, ?_, ?_⟩
  · rw [samples_length]
    rw [gMaxIndex] at index
    split_ifs at index <;> omega
  · rw [gMinIndex]
    omega
  · rw [samples_length]
    rw [gMaxIndex] at index
    split_ifs at index <;> omega

/-- The last sum of the inner loop is the correlation. -/
theorem partialSum_whole (index : gMinIndex k < gMaxIndex f g k) :
    ∑ j ∈ Finset.range (gMaxIndex f g k - gMinIndex k).toNat, (f.get (gMinIndex k + j - k)).toInt * (g.get (gMinIndex k + j)).toInt =
      correlation f.samples g.samples k := by
  have low : 0 ≤ gMinIndex k := le_max_left 0 k
  have high := gMaxIndex_le f g k
  rw [partialSum_loop f g k (by omega), correlation, samples_length]
  refine (partialSum_flat (by omega) fun i above below => ?_).symm
  have moved : gMaxIndex f g k = k + f.size := by
    rw [gMaxIndex] at above ⊢
    split_ifs at above ⊢ <;> omega
  rw [signal_behind (f := f.samples) (by rw [samples_length]; omega), zero_mul]

/-- Each of the sums is one that the inner loop makes. -/
theorem Overlap.reached (overlap : Overlap f.samples g.samples k) (m : ℕ) : ∃ n : ℕ, (n : ℤ) ≤ gMaxIndex f g k - gMinIndex k ∧
    partialSum f.samples g.samples k m = partialSum f.samples g.samples k ((gMinIndex k).toNat + n) := by
  have index := overlap.index
  have low : 0 ≤ gMinIndex k := le_max_left 0 k
  have high : gMaxIndex f g k = g.size ∨ gMaxIndex f g k = k + f.size := by
    rw [gMaxIndex]
    split_ifs
    · exact .inr rfl
    · exact .inl rfl
  rcases Nat.lt_or_ge m (gMinIndex k).toNat with early | later
  · refine ⟨0, by omega, ?_⟩
    rw [add_zero]
    refine (partialSum_flat early.le fun i _ below => ?_).symm
    rw [signal_negative (show (i : ℤ) - k < 0 by rw [gMinIndex] at below; omega), zero_mul]
  · by_cases late : gMaxIndex f g k < m
    · refine ⟨(gMaxIndex f g k - gMinIndex k).toNat, by omega, partialSum_flat (by omega) fun i above _ => ?_⟩
      rcases high with whole | moved
      · rw [signal_behind (f := g.samples) (by rw [samples_length]; omega), mul_zero]
      · rw [signal_behind (f := f.samples) (by rw [samples_length]; omega), zero_mul]
    · exact ⟨m - (gMinIndex k).toNat, by omega, congrArg _ (by omega)⟩

/-- The inner loop computes the exact sum, unless a sum on the way does not fit. -/
theorem accumulate_eq (longBits : ℕ) (f g : SonarChunk) (k : ℤ) : accumulate longBits f g k =
    if ∀ m ≤ g.samples.length, Fits longBits (partialSum f.samples g.samples k m) then some (correlation f.samples g.samples k) else none := by
  rw [accumulate, foldlM_long]
  by_cases overlap : Overlap f.samples g.samples k
  · have index := overlap.index
    have low : 0 ≤ gMinIndex k := le_max_left 0 k
    have high := gMaxIndex_le f g k
    have all : (∀ m ≤ (gMaxIndex f g k - gMinIndex k).toNat,
          Fits longBits (∑ j ∈ Finset.range m, (f.get (gMinIndex k + j - k)).toInt * (g.get (gMinIndex k + j)).toInt)) ↔
        ∀ m ≤ g.samples.length, Fits longBits (partialSum f.samples g.samples k m) := by
      constructor
      · intro fits m _
        obtain ⟨n, inside, same⟩ := overlap.reached m
        rw [same, ← partialSum_loop f g k inside]
        exact fits n (by omega)
      · intro fits m inside
        rw [partialSum_loop f g k (by omega)]
        exact fits _ (by rw [samples_length]; omega)
    simp only [all, partialSum_whole index]
  · have none : gMaxIndex f g k ≤ gMinIndex k := not_lt.mp fun index => overlap (overlap_of_index index)
    have empty : (gMaxIndex f g k - gMinIndex k).toNat = 0 := by omega
    simp only [empty, Nat.le_zero, forall_eq, Finset.range_zero, Finset.sum_empty, correlation, partialSum_apart overlap, fits_zero,
      implies_true, if_true]

/-! ### The search -/

theorem search_room (room : Room longBits f.samples g.samples) : search longBits f g =
    some ((lags f g).foldl (exceed (correlation f.samples g.samples)) (signedMin longBits, 0)) := by
  have step : (fun (best : ℤ × ℤ) k => (do
      let accum ← accumulate longBits f g k
      return if accum > best.1 then (accum, k) else (best.1, best.2) : Option (ℤ × ℤ))) =
      fun best k => some (exceed (correlation f.samples g.samples) best k) := by
    funext best k
    rw [accumulate_eq, if_pos (room k)]
    rfl
  rw [search]
  exact (congrArg (fun body => (lags f g).foldlM body _) step).trans List.foldlM_pure

theorem mem_lags : k ∈ lags f g ↔ -(f.size : ℤ) ≤ k ∧ k < g.size := by
  rw [lags, List.mem_map]
  constructor
  · rintro ⟨n, inside, rfl⟩
    have below := List.mem_range.mp inside
    constructor <;> omega
  · rintro ⟨low, high⟩
    exact ⟨(k + f.size).toNat, List.mem_range.mpr (by omega), by omega⟩

theorem Overlap.lag (overlap : Overlap f.samples g.samples k) : k ∈ lags f g := by
  obtain ⟨i, ⟨low, high⟩, before, after⟩ := overlap
  rw [samples_length] at high after
  exact mem_lags.mpr ⟨by omega, by omega⟩

/-- At the first lag the chunks do not overlap yet. -/
theorem first_apart (f g : SonarChunk) : ¬ Overlap f.samples g.samples (-f.size) := by
  rintro ⟨i, ⟨low, high⟩, before, after⟩
  rw [samples_length] at after
  omega

theorem lags_cons (some : k ∈ lags f g) : ∃ rest, lags f g = -(f.size : ℤ) :: rest := by
  obtain ⟨low, high⟩ := mem_lags.mp some
  obtain ⟨n, count⟩ : ∃ n, f.size + g.size = n + 1 := ⟨f.size + g.size - 1, by omega⟩
  rw [lags, count, List.range_succ_eq_map, List.map_cons]
  exact ⟨_, by rw [Nat.cast_zero, add_zero]⟩

/-- A sum that does not fit leaves no result. -/
theorem search_overflow (full : ¬ Room longBits f.samples g.samples) : search longBits f g = none := by
  obtain ⟨k, m, inside, large⟩ : ∃ k, ∃ m ≤ g.samples.length, ¬ Fits longBits (partialSum f.samples g.samples k m) := by
    by_contra all
    push Not at all
    exact full all
  have overlap : Overlap f.samples g.samples k := by
    by_contra apart
    rw [partialSum_apart apart] at large
    exact large (fits_zero longBits)
  obtain ⟨before, after, split⟩ := List.append_of_mem overlap.lag
  have none : accumulate longBits f g k = none := by
    rw [accumulate_eq, if_neg fun all => large (all m inside)]
  rw [search, split, List.foldlM_append]
  refine Option.bind_eq_none_iff.mpr fun best _ => ?_
  rw [List.foldlM_cons, none]
  rfl

/-- The search ends with the first of the maximal lags, which is that without an overlap if no sum is positive. -/
theorem search_first (room : Room longBits f.samples g.samples) (some : k ∈ lags f g) : ∃ x,
    search longBits f g = Option.some (correlation f.samples g.samples x, x) ∧ First (correlation f.samples g.samples) (lags f g) x := by
  rw [search_room room]
  rcases foldl_exceed (correlation f.samples g.samples) (lags f g) (signedMin longBits, 0) with ⟨-, below⟩ | ⟨x, same, -, first⟩
  · obtain ⟨rest, start⟩ := lags_cons some
    have zero := below (-f.size) (start ▸ List.mem_cons_self)
    have negative : signedMin longBits < 0 := neg_neg_of_pos (by positivity)
    rw [correlation, partialSum_apart (first_apart f g)] at zero
    exact absurd zero (not_le.mpr negative)
  · exact ⟨x, congrArg Option.some same, first⟩

theorem tdoa_of_search {max maxindex : ℤ} (found : search longBits f g = some (max, maxindex)) :
    tdoa_xcorr longBits f g = some (maxindex - f.startIndex.toInt + g.startIndex.toInt) := by
  rw [tdoa_xcorr, found]
  rfl

theorem correct_of_pos (room : Room longBits f.samples g.samples) (positive : 0 < correlation f.samples g.samples k) :
    Correct longBits f g := by
  obtain ⟨x, found, first⟩ := search_first room (overlap_of_pos positive).lag
  have above : 0 < correlation f.samples g.samples x := positive.trans_le (first.greatest k (overlap_of_pos positive).lag)
  have maximal : Maximal f.samples g.samples x := ⟨overlap_of_pos above, fun i overlap => first.greatest i overlap.lag⟩
  refine ⟨⟨x, maximal, tdoa_of_search found⟩, fun p a b left right => ?_⟩
  rw [tdoa_of_search found, left.unique right maximal]
  congr 1
  ring

/-- With 64 bits one pulse in both chunks always gives the difference of its places. -/
theorem tdoa_pulse {p : List Int16} {a b : ℕ} (first : Pulse f.samples p a) (second : Pulse g.samples p b) (short : g.size < 2 ^ 33) :
    tdoa_xcorr 64 f g = some ((g.startIndex.toInt + b) - (f.startIndex.toInt + a)) := by
  have room : Room 64 f.samples g.samples := room_of_length (by rwa [samples_length])
  exact (correct_of_pos room (first.energy second)).pulse p a b first second

end

/-- The time difference is that of a lag with a maximal sum as long as no sum overflows, and the sum at some
    lag is positive: the lag before the first with an overlap has the sum zero. -/
theorem tdoa_maximal (longBits : ℕ) (f g : SonarChunk) :
    Correct longBits f g ↔ Room longBits f.samples g.samples ∧ ∃ k, 0 < correlation f.samples g.samples k := by
  constructor
  · rintro ⟨⟨k, ⟨overlap, -⟩, result⟩, -⟩
    have room : Room longBits f.samples g.samples := by
      by_contra full
      rw [tdoa_xcorr, search_overflow full] at result
      cases result
    obtain ⟨x, found, before, after, split, less, -⟩ := search_first room overlap.lag
    rw [tdoa_of_search found] at result
    have lag : x = k := by
      have same := Option.some_inj.mp result
      omega
    refine ⟨room, x, ?_⟩
    obtain ⟨rest, start⟩ := lags_cons overlap.lag
    cases before with
    | nil =>
      rw [start] at split
      have first : -(f.size : ℤ) = x := (List.cons.inj split).1
      rw [← lag, ← first] at overlap
      exact absurd overlap (first_apart f g)
    | cons y before =>
      rw [start] at split
      have first : -(f.size : ℤ) = y := (List.cons.inj split).1
      have positive := less y List.mem_cons_self
      rwa [← first, correlation, partialSum_apart (first_apart f g)] at positive
  · rintro ⟨room, j, positive⟩
    exact correct_of_pos room positive

/-- Two chunks of one sample with opposite signs: the result is a lag at which they do not overlap. -/
theorem tdoa_negative : ¬ Correct 64 ⟨0, 1, fun _ => 1, 1⟩ ⟨0, 1, fun _ => -1, -1⟩ := by
  rintro ⟨⟨k, ⟨⟨i, ⟨low, high⟩, before, after⟩, -⟩, result⟩, -⟩
  have computed : tdoa_xcorr 64 ⟨0, 1, fun _ => 1, 1⟩ ⟨0, 1, fun _ => -1, -1⟩ = some (-1) := by decide
  rw [computed] at result
  have lag : -1 = k - 0 + 0 := Option.some_inj.mp result
  rw [samples_length] at high after
  simp only [SonarChunk.size] at high after
  omega

end Tortuga.Tdoa
