import Mathlib.Algebra.Order.Group.Unbundled.Int
import Mathlib.Data.List.Induction
import Mathlib.Data.Nat.Notation

/-!
The chunks of samples of the sonar (`SonarChunk.cpp`): `append` up to the capacity, and the peak.
The cells of the array are followed by those of other objects.
-/
namespace Tortuga.SonarChunks
set_option linter.unusedSimpArgs false

/-- `SonarChunk::capacity`, the cells of the array. -/
def capacity : ℕ := 2048

structure SonarChunk where
  startIndex : Int32
  length : ℕ
  sample : ℕ → Int16
  peak : Int16

def SonarChunk.purge (s : SonarChunk) : SonarChunk := { s with length := 0, peak := 0, startIndex := 0 }

def SonarChunk.size (s : SonarChunk) : ℕ := s.length

/-- `operator[]`. -/
def SonarChunk.get (s : SonarChunk) (i : ℤ) : Int16 := s.sample i.toNat

def SonarChunk.getPeak (s : SonarChunk) : Int16 := s.peak

/-- What a call of `append` returns, the cell that it writes, and the chunk after it. -/
structure Appended where
  ok : Bool
  written : Option ℕ
  chunk : SonarChunk

def SonarChunk.append (s : SonarChunk) (datum : Int16) : Appended :=
  if s.length ≤ capacity then
    { ok := true
      written := some s.length
      chunk := { s with
        length := s.length + 1
        sample := Function.update s.sample s.length datum
        peak := if |datum.toInt| > s.peak.toInt then datum else s.peak } }
  else { ok := false, written := none, chunk := s }

/-- Some calls of `append`, one after the other. -/
def SonarChunk.appends (s : SonarChunk) (data : List Int16) : List Appended × SonarChunk :=
  data.foldl (fun r datum => (r.1 ++ [r.2.append datum], (r.2.append datum).chunk)) ([], s)

/-- The samples stored. -/
def SonarChunk.samples (s : SonarChunk) : List Int16 := (List.range s.size).map s.sample

/-! ### What a chunk is for -/

/-- A sample of greatest magnitude among some, or zero. -/
def Greatest (samples : List Int16) (peak : Int16) : Prop :=
  (samples = [] → peak = 0) ∧ (samples ≠ [] → peak ∈ samples ∧ ∀ d ∈ samples, |d.toInt| ≤ |peak.toInt|)

/-- The calls since a `purge` store the first samples, as many as there is room for, and no others. -/
structure Correct (data : List Int16) (r : List Appended × SonarChunk) : Prop where
  stored : r.2.samples = data.take capacity
  inside : ∀ a ∈ r.1, ∀ i ∈ a.written, i < capacity
  returned : r.1.map Appended.ok = (List.range data.length).map fun i => decide (i < capacity)
  peak : Greatest r.2.samples r.2.getPeak

/-- The greatest magnitude is that of a sample that is not negative, or that of the last one. -/
def PeakSeen (data : List Int16) : Prop :=
  ∀ last ∈ data.getLast?, (∃ d ∈ data, ∀ e ∈ data, |e.toInt| ≤ d.toInt) ∨ ∀ e ∈ data, |e.toInt| ≤ |last.toInt|

section
variable {s : SonarChunk} {data : List Int16} {datum : Int16} {i : ℕ}

@[simp] theorem appends_nil : s.appends [] = ([], s) := rfl

@[simp] theorem appends_snoc : s.appends (data ++ [datum]) =
    ((s.appends data).1 ++ [(s.appends data).2.append datum], ((s.appends data).2.append datum).chunk) := by
  rw [SonarChunk.appends, List.foldl_append]
  rfl

/-- What has been returned does not change later. -/
theorem appends_earlier (data more : List Int16) : (s.appends data).1 <+: (s.appends (data ++ more)).1 := by
  induction more using List.reverseRecOn with
  | nil => exact (List.append_nil data).symm ▸ List.prefix_rfl
  | append_singleton more datum ih =>
    rw [← List.append_assoc, appends_snoc]
    exact ih.trans (List.prefix_append _ _)

/-! ### Room -/

/-- The calls of `append` up to the one that is first refused. -/
structure Grown (data : List Int16) (r : List Appended × SonarChunk) : Prop where
  length : r.2.length = data.length
  sample : ∀ i d, data[i]? = some d → r.2.sample i = d
  calls : r.1.map (fun a => (a.ok, a.written)) = (List.range data.length).map fun i => (true, some i)

/-- One sample more is taken even when the array is full. -/
theorem grown (s : SonarChunk) (room : data.length ≤ capacity + 1) : Grown data (s.purge.appends data) := by
  induction data using List.reverseRecOn with
  | nil => exact ⟨rfl, fun i d none => by simp at none, rfl⟩
  | append_singleton data datum ih =>
    rw [List.length_append, List.length_singleton] at room
    have before := ih (by omega)
    have taken : (s.purge.appends data).2.length ≤ capacity := by
      rw [before.length]
      omega
    rw [appends_snoc, SonarChunk.append, if_pos taken]
    refine ⟨?_, fun i d found => ?_, ?_⟩
    · rw [before.length, List.length_append, List.length_singleton]
    · simp only [before.length]
      rcases Nat.lt_trichotomy i data.length with earlier | rfl | later
      · rw [List.getElem?_append_left earlier] at found
        rw [Function.update_of_ne (by omega)]
        exact before.sample i d found
      · rw [List.getElem?_concat_length] at found
        rw [Function.update_self]
        exact Option.some_inj.mp found
      · have outside : (data ++ [datum]).length ≤ i := by
          rw [List.length_append, List.length_singleton]
          omega
        rw [List.getElem?_eq_none outside] at found
        cases found
    · rw [List.map_append, before.calls, List.length_append, List.length_singleton, List.range_succ, List.map_append,
        List.map_singleton, List.map_singleton, before.length]

theorem Grown.samples {r : List Appended × SonarChunk} (grown : Grown data r) : r.2.samples = data := by
  apply List.ext_getElem?
  intro i
  rw [SonarChunk.samples, SonarChunk.size, grown.length, List.getElem?_map]
  by_cases inside : i < data.length
  · rw [List.getElem?_range inside, List.getElem?_eq_getElem inside, Option.map_some]
    exact congrArg some (grown.sample i _ (List.getElem?_eq_getElem inside))
  · rw [List.getElem?_eq_none (by rw [List.length_range]; omega), List.getElem?_eq_none (by omega), Option.map_none]

/-- The sample after the last for which there is room is written behind the array. -/
theorem written_outside (s : SonarChunk) (more : capacity < data.length) : ∃ a ∈ (s.purge.appends data).1, a.written = some capacity := by
  have first : (data.take (capacity + 1)).length = capacity + 1 := List.length_take_of_le more
  have calls := (grown s first.le).calls
  have there : (true, some capacity) ∈ (s.purge.appends (data.take (capacity + 1))).1.map fun a => (a.ok, a.written) := by
    rw [calls, first, List.mem_map]
    exact ⟨capacity, List.mem_range.mpr (Nat.lt_succ_self capacity), rfl⟩
  obtain ⟨a, returned, same⟩ := List.mem_map.mp there
  have whole := appends_earlier (s := s.purge) (data.take (capacity + 1)) (data.drop (capacity + 1))
  rw [List.take_append_drop] at whole
  exact ⟨a, whole.subset returned, congrArg Prod.snd same⟩

/-! ### The peak -/

/-- The peak after some samples, all of which have been taken. -/
def peakOf (data : List Int16) : Int16 := data.foldl (fun peak datum => if |datum.toInt| > peak.toInt then datum else peak) 0

theorem peakOf_snoc : peakOf (data ++ [datum]) = if |datum.toInt| > (peakOf data).toInt then datum else peakOf data := by
  rw [peakOf, List.foldl_append]
  rfl

theorem getPeak_eq (s : SonarChunk) (room : data.length ≤ capacity + 1) : (s.purge.appends data).2.getPeak = peakOf data := by
  induction data using List.reverseRecOn with
  | nil => rfl
  | append_singleton data datum ih =>
    rw [List.length_append, List.length_singleton] at room
    have before := grown s (show data.length ≤ capacity + 1 by omega)
    have taken : (s.purge.appends data).2.length ≤ capacity := by
      rw [before.length]
      omega
    have peak := ih (by omega)
    rw [SonarChunk.getPeak] at peak
    rw [appends_snoc, SonarChunk.append, if_pos taken, peakOf_snoc, SonarChunk.getPeak, peak]

/-- A peak is one of the samples, but for the zero before the first. -/
theorem peakOf_mem (data : List Int16) : peakOf data = 0 ∨ peakOf data ∈ data := by
  induction data using List.reverseRecOn with
  | nil => exact .inl rfl
  | append_singleton data datum ih =>
    rw [peakOf_snoc]
    split
    · exact .inr (List.mem_append_right _ (List.mem_singleton_self _))
    · exact ih.imp_right (List.mem_append_left _)

/-- A negative peak does not outlive the next sample. -/
theorem peakOf_negative (negative : (peakOf data).toInt < 0) : data.getLast? = some (peakOf data) := by
  induction data using List.reverseRecOn with
  | nil => exact absurd negative (by decide)
  | append_singleton data datum ih =>
    rw [peakOf_snoc] at negative ⊢
    rw [List.getLast?_concat]
    split_ifs at negative ⊢ with greater
    · rfl
    · have magnitude := abs_nonneg datum.toInt
      omega

/-- Nothing takes the place of a positive peak that is not exceeded. -/
theorem peakOf_of_greatest {d : Int16} (there : d ∈ data) (greatest : ∀ e ∈ data, |e.toInt| ≤ d.toInt) : peakOf data = d := by
  induction data using List.reverseRecOn with
  | nil => cases there
  | append_singleton data datum ih =>
    have newest := greatest datum (List.mem_append_right _ (List.mem_singleton_self _))
    have older : ∀ e ∈ data, |e.toInt| ≤ d.toInt := fun e earlier => greatest e (List.mem_append_left _ earlier)
    rw [peakOf_snoc]
    rcases List.mem_append.mp there with earlier | last
    · rw [ih earlier older, if_neg (by omega)]
    · obtain rfl := List.mem_singleton.mp last
      split_ifs with greater
      · rfl
      · -- the peak so far is as great as the sample, so it is the same
        have below : (peakOf data).toInt ≤ d.toInt := by
          rcases peakOf_mem data with zero | earlier
          · rw [zero]
            exact (abs_nonneg _).trans newest
          · exact (le_abs_self _).trans (older _ earlier)
        have least := le_abs_self d.toInt
        exact Int16.toInt_inj.mp (by omega)

/-- A last sample that exceeds all others but one of its own magnitude is the peak. -/
theorem peakOf_of_last (greatest : ∀ e ∈ data, |e.toInt| ≤ |datum.toInt|) (only : ∀ e ∈ data, e.toInt ≠ |datum.toInt|)
    (nonzero : datum.toInt ≠ 0) : peakOf (data ++ [datum]) = datum := by
  have below : (peakOf data).toInt < |datum.toInt| := by
    rcases peakOf_mem data with zero | earlier
    · rw [zero]
      exact abs_pos.mpr nonzero
    · exact lt_of_le_of_ne ((le_abs_self _).trans (greatest _ earlier)) (only _ earlier)
  rw [peakOf_snoc, if_pos below]

theorem greatest_peakOf : Greatest data (peakOf data) ↔ PeakSeen data := by
  constructor
  · rintro ⟨-, greatest⟩ last found
    have some : data ≠ [] := by
      rintro rfl
      cases found
    obtain ⟨there, above⟩ := greatest some
    by_cases negative : (peakOf data).toInt < 0
    · have same : last = peakOf data := Option.some_inj.mp (found.symm.trans (peakOf_negative negative))
      exact .inr (same ▸ above)
    · rw [abs_of_nonneg (by omega)] at above
      exact .inl ⟨peakOf data, there, above⟩
  · intro seen
    refine ⟨fun none => by rw [none]; rfl, fun some => ?_⟩
    have found := List.getLast?_eq_some_getLast some
    have positive : ∀ d ∈ data, (∀ e ∈ data, |e.toInt| ≤ d.toInt) → peakOf data ∈ data ∧ ∀ e ∈ data, |e.toInt| ≤ |(peakOf data).toInt| := by
      intro d there greatest
      rw [peakOf_of_greatest there greatest]
      exact ⟨there, fun e other => (greatest e other).trans (le_abs_self _)⟩
    rcases seen _ found with ⟨d, there, greatest⟩ | greatest
    · exact positive d there greatest
    · obtain ⟨before, last, rfl⟩ : ∃ before last, data = before ++ [last] := ⟨_, _, (List.dropLast_concat_getLast some).symm⟩
      rw [List.getLast_concat] at greatest
      by_cases other : ∃ d ∈ before ++ [last], d.toInt = |last.toInt|
      · obtain ⟨d, there, same⟩ := other
        exact positive d there (same ▸ greatest)
      · have only : ∀ e ∈ before ++ [last], e.toInt ≠ |last.toInt| := fun e there same => other ⟨e, there, same⟩
        have newest := List.mem_append_right before (List.mem_singleton_self last)
        have nonzero : last.toInt ≠ 0 := fun zero => only last newest (by rw [zero, abs_zero])
        rw [peakOf_of_last (fun e earlier => greatest e (List.mem_append_left _ earlier))
          (fun e earlier => only e (List.mem_append_left _ earlier)) nonzero]
        exact ⟨newest, greatest⟩

end

/-- The calls of `append` after a `purge` do what they should as long as there is room for the samples, and
    the sample of greatest magnitude is not a negative one that others follow. -/
theorem append_correct (s : SonarChunk) (data : List Int16) :
    Correct data (s.purge.appends data) ↔ data.length ≤ capacity ∧ PeakSeen data := by
  constructor
  · intro correct
    have room : data.length ≤ capacity := by
      by_contra more
      obtain ⟨a, returned, written⟩ := written_outside s (not_le.mp more)
      exact lt_irrefl _ (correct.inside a returned capacity written)
    have peak := correct.peak
    rw [(grown s (by omega)).samples, getPeak_eq s (by omega)] at peak
    exact ⟨room, greatest_peakOf.mp peak⟩
  · rintro ⟨room, seen⟩
    have grown := grown s (show data.length ≤ capacity + 1 by omega)
    refine ⟨?_, fun a returned i written => ?_, ?_, ?_⟩
    · rw [grown.samples, List.take_of_length_le room]
    · have there : (a.ok, a.written) ∈ (List.range data.length).map fun i => (true, some i) := by
        rw [← grown.calls]
        exact List.mem_map_of_mem returned
      obtain ⟨j, small, same⟩ := List.mem_map.mp there
      have below := List.mem_range.mp small
      have index : j = i := Option.some_inj.mp ((congrArg Prod.snd same).trans written)
      omega
    · have oks := congrArg (List.map Prod.fst) grown.calls
      rw [List.map_map, List.map_map] at oks
      refine oks.trans (List.map_congr_left fun i small => ?_)
      have below := List.mem_range.mp small
      exact (decide_eq_true (by omega)).symm
    · rw [grown.samples, getPeak_eq s (by omega)]
      exact greatest_peakOf.mpr seen

/-- A small sample takes the place of a negative peak, and a sample more than the capacity is written
    behind the array. -/
theorem append_drift : ¬ Correct [-100, 1] ((⟨0, 0, fun _ => 0, 0⟩ : SonarChunk).purge.appends [-100, 1]) ∧
    ¬ Correct (List.replicate 2049 7) ((⟨0, 0, fun _ => 0, 0⟩ : SonarChunk).purge.appends (List.replicate 2049 7)) := by
  constructor
  · intro correct
    have greatest := (correct.peak.2 (by decide)).2 (-100) (by decide)
    revert greatest
    decide
  · intro correct
    have more : capacity < (List.replicate 2049 (7 : Int16)).length := by
      rw [List.length_replicate]
      decide
    obtain ⟨a, returned, written⟩ := written_outside ⟨0, 0, fun _ => 0, 0⟩ more
    exact lt_irrefl _ (correct.inside a returned capacity written)

end Tortuga.SonarChunks
