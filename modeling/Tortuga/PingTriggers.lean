import Mathlib.Data.Finset.Card
import Tortuga.PingEdges

/-!
When the multi-pinger searches for a ping: the counters of the trigger count the loud samples, and what is reported
comes from the search itself.
-/
namespace Tortuga.PingTriggers
open Tortuga.Multipinger Tortuga.PingEdges
set_option linter.unusedSimpArgs false

/-- The hold-off that the program asks for: 0.2 seconds. -/
abbrev holdoffSamples : ℕ := 100000

/-- All channels are above their thresholds when the sample `n` has been stored. -/
def Loud (settings : Settings) (x : Stream) (n : ℕ) : Prop := (stored settings x n).triggered settings = true

/-- The turn for the sample `n` runs a search for edges. -/
def Searches (settings : Settings) (x : Stream) (n : ℕ) : Prop := ∃ ping, outcome settings x n = .search ping

/-- There is no hold-off at the sample `n`. -/
def Examined (settings : Settings) (x : Stream) (n : ℕ) : Prop := (run settings x n).holdoff = 0

instance (settings : Settings) (x : Stream) : DecidablePred (Loud settings x) := fun n =>
  inferInstanceAs (Decidable ((stored settings x n).triggered settings = true))

/-- How many of the samples from `first` on, before `last`, are loud. -/
def louds (settings : Settings) (x : Stream) (first last : ℕ) : ℕ := ((Finset.Ico first last).filter (Loud settings x)).card

/-- Searches come at the right times, and what they report they have found. -/
structure Correct (settings : Settings) (x : Stream) : Prop where
  triggered : ∀ n, Searches settings x n → Loud settings x n ∧
    ∃ earlier : Finset ℕ, earlier.card = holdonNSamples ∧ ∀ m ∈ earlier, m < n ∧ Loud settings x m ∧
      ∀ k, m ≤ k → k < n → Examined settings x k ∧ ¬ Searches settings x k
  apart : ∀ n m, Searches settings x n → Searches settings x m → n < m → n + holdoffSamples < m
  reported : ∀ n ping, outcome settings x n = .search (some ping) → ∀ ch, (stored settings x n).edge settings ch = some (ping ch)

/-- The sample from which on the loud ones count for the next search. -/
def start (settings : Settings) (x : Stream) : ℕ → ℕ
  | 0 => 0
  | n + 1 =>
    match outcome settings x n with
    | .nothing => start settings x n
    | .search _ => n + settings.holdoffNSamples.toNat + 1

section
variable {settings : Settings} {x : Stream} {n m l first last : ℕ}

/-! ### The counters -/

theorem louds_self (settings : Settings) (x : Stream) (le : last ≤ first) : louds settings x first last = 0 := by
  simp [louds, Finset.Ico_eq_empty_of_le le]

theorem louds_succ (settings : Settings) (x : Stream) (le : first ≤ n) :
    louds settings x first (n + 1) = louds settings x first n + if Loud settings x n then 1 else 0 := by
  rw [louds, ← Finset.insert_Ico_right_eq_Ico_add_one le, Finset.filter_insert]
  split_ifs with loud
  · rw [Finset.card_insert_of_notMem (by simp)]
    rfl
  · rfl

theorem louds_mono (settings : Settings) (x : Stream) {first' last' : ℕ} (before : first' ≤ first) (after : last ≤ last') :
    louds settings x first last ≤ louds settings x first' last' :=
  Finset.card_le_card (Finset.filter_subset_filter _ (Finset.Ico_subset_Ico before after))

/-- The cases of a turn. -/
theorem turn (settings : Settings) (x : Stream) (n : ℕ) :
    let s := run settings x n
    let next := run settings x (n + 1)
    (s.holdoff ≠ 0 ∧ ¬ Searches settings x n ∧ next.holdoff = s.holdoff - 1 ∧ next.holdon = 0) ∨
    (s.holdoff = 0 ∧ ¬ Loud settings x n ∧ ¬ Searches settings x n ∧ next.holdoff = 0 ∧ next.holdon = s.holdon) ∨
    (s.holdoff = 0 ∧ Loud settings x n ∧ s.holdon < holdonNSamples ∧ ¬ Searches settings x n ∧ next.holdoff = 0 ∧
      next.holdon = s.holdon + 1) ∨
    (s.holdoff = 0 ∧ Loud settings x n ∧ holdonNSamples ≤ s.holdon ∧
      outcome settings x n = .search ((stored settings x n).search settings (x.memory n)) ∧
      next.holdoff = settings.holdoffNSamples.toNat ∧ next.holdon = 0) := by
  have before : (stored settings x n).holdoff = (run settings x n).holdoff ∧ (stored settings x n).holdon = (run settings x n).holdon :=
    ⟨rfl, rfl⟩
  have holdoff : (run settings x (n + 1)).holdoff = ((stored settings x n).examine settings (x.memory n)).1.holdoff := rfl
  have holdon : (run settings x (n + 1)).holdon = ((stored settings x n).examine settings (x.memory n)).1.holdon := rfl
  have done : outcome settings x n = ((stored settings x n).examine settings (x.memory n)).2 := rfl
  simp only [Searches, Loud, holdoff, holdon, done, State.examine, before]
  by_cases off : (run settings x n).holdoff = 0
  · by_cases loud : (stored settings x n).triggered settings = true
    · by_cases few : (run settings x n).holdon < holdonNSamples
      · simp [off, loud, few, before]
      · simp [off, loud, few, before, not_lt.mp few]
    · simp [off, loud, before]
  · simp [off, before]

theorem start_search (searches : Searches settings x n) : start settings x (n + 1) = n + settings.holdoffNSamples.toNat + 1 := by
  obtain ⟨ping, done⟩ := searches
  simp [start, done]

theorem start_nothing (none : ¬ Searches settings x n) : start settings x (n + 1) = start settings x n := by
  cases done : outcome settings x n with
  | nothing => simp [start, done]
  | search ping => exact absurd ⟨ping, done⟩ none

/-- The hold-off is what is left until the first sample that counts, and the hold-on is how many have been loud since. -/
theorem counters (settings : Settings) (x : Stream) (n : ℕ) :
    (run settings x n).holdoff = start settings x n - n ∧
      (run settings x n).holdon = louds settings x (start settings x n) n ∧ (run settings x n).holdon ≤ holdonNSamples := by
  induction n with
  | zero => exact ⟨rfl, (louds_self settings x le_rfl).symm, Nat.zero_le _⟩
  | succ n ih =>
    obtain ⟨off, on, bound⟩ := ih
    obtain ⟨some, none, off', on'⟩ | ⟨zero, quiet, none, off', on'⟩ | ⟨zero, loud, few, none, off', on'⟩ |
      ⟨zero, loud, many, found, off', on'⟩ := turn settings x n
    · rw [start_nothing none, off', on', off, louds_self settings x (by omega)]
      exact ⟨by omega, rfl, Nat.zero_le _⟩
    · rw [start_nothing none, off', on', louds_succ settings x (by omega), if_neg quiet]
      exact ⟨by omega, on, bound⟩
    · rw [start_nothing none, off', on', louds_succ settings x (by omega), if_pos loud, on]
      rw [on] at few
      exact ⟨by omega, rfl, few⟩
    · rw [start_search ⟨_, found⟩, off', on', louds_self settings x (by omega)]
      exact ⟨by omega, rfl, Nat.zero_le _⟩

/-- When a search runs. -/
theorem searches_iff : Searches settings x n ↔
    start settings x n ≤ n ∧ Loud settings x n ∧ louds settings x (start settings x n) n = holdonNSamples := by
  obtain ⟨off, on, bound⟩ := counters settings x n
  obtain ⟨some, none, -⟩ | ⟨zero, quiet, none, -⟩ | ⟨zero, loud, few, none, -⟩ | ⟨zero, loud, many, found, -⟩ := turn settings x n
  · exact ⟨fun searches => absurd searches none, fun counted => absurd counted.1 (by omega)⟩
  · exact ⟨fun searches => absurd searches none, fun counted => absurd counted.2.1 quiet⟩
  · exact ⟨fun searches => absurd searches none, fun counted => absurd counted.2.2 (by omega)⟩
  · exact ⟨fun _ => ⟨by omega, loud, by omega⟩, fun _ => ⟨_, found⟩⟩

theorem start_le_succ (settings : Settings) (x : Stream) (n : ℕ) : start settings x n ≤ start settings x (n + 1) := by
  by_cases searches : Searches settings x n
  · have counted := (searches_iff.mp searches).1
    rw [start_search searches]
    omega
  · rw [start_nothing searches]

theorem start_mono (settings : Settings) (x : Stream) : Monotone (start settings x) := monotone_nat_of_le_succ (start_le_succ settings x)

/-- No search has run since the first sample that counts. -/
theorem not_searches (counts : start settings x n ≤ m) (before : m < n) : ¬ Searches settings x m := by
  intro searches
  have later := start_mono settings x (Nat.succ_le_of_lt before)
  rw [Nat.succ_eq_add_one, start_search searches] at later
  omega

/-- Nor is there a hold-off. -/
theorem examined_since (counts : start settings x n ≤ m) (before : m < n) : Examined settings x m := by
  have earlier := start_mono settings x before.le
  rw [Examined, (counters settings x m).1]
  omega

/-- Enough loud samples lead to a search. -/
theorem searches_of_louds (settings : Settings) (x : Stream) (le : n ≤ l) (many : holdonNSamples < louds settings x (start settings x n) l) :
    ∃ m, n ≤ m ∧ m < l ∧ Searches settings x m := by
  by_contra none
  push Not at none
  have same : ∀ k, n ≤ k → k ≤ l → start settings x k = start settings x n := by
    intro k later
    induction k, later using Nat.le_induction with
    | base => exact fun _ => rfl
    | succ k later ih =>
      intro before
      rw [start_nothing (none k later before), ih (Nat.le_of_succ_le before)]
  obtain ⟨-, on, bound⟩ := counters settings x l
  rw [on, same l le le_rfl] at bound
  omega

/-! ### The edges -/

/-- Edges are reported only if all have been found. -/
theorem search_edges {s : State} {memory ping : Fin nChannels → ℕ} (found : s.search settings memory = some ping) (ch : Fin nChannels) :
    s.edge settings ch = some (ping ch) := by
  simp only [State.search] at found
  split_ifs at found with same all
  obtain rfl := Option.some_inj.mp found
  obtain ⟨value, edge⟩ := Option.isSome_iff_exists.mp (List.all_eq_true.mp all ch (List.mem_finRange ch))
  simp [edge]

theorem searched {ping : Option (Fin nChannels → ℕ)} (done : outcome settings x n = .search ping) :
    ping = (stored settings x n).search settings (x.memory n) := by
  obtain ⟨some, none, -⟩ | ⟨zero, quiet, none, -⟩ | ⟨zero, loud, few, none, -⟩ | ⟨zero, loud, many, found, -⟩ := turn settings x n
  · exact absurd ⟨ping, done⟩ none
  · exact absurd ⟨ping, done⟩ none
  · exact absurd ⟨ping, done⟩ none
  · rw [done] at found
    exact Outcome.search.inj found

end

/-- Searches are further apart than the hold-off if and only if the signal is quiet enough when the hold-off of the counter
    has run out: at most 128 samples are loud in the rest of the 0.2 seconds. The rest always holds. -/
theorem triggers_correct (settings : Settings) (x : Stream) : Correct settings x ↔
    ∀ n, Searches settings x n → louds settings x (n + settings.holdoffNSamples.toNat + 1) (n + holdoffSamples + 1) ≤ holdonNSamples := by
  constructor
  · intro correct n searches
    by_contra many
    rw [← start_search searches, not_le] at many
    obtain ⟨m, later, near, again⟩ := searches_of_louds settings x (by omega) many
    have apart := correct.apart n m searches again later
    omega
  · intro quiet
    refine ⟨fun n searches => ?_, fun n m searches again later => ?_, fun n ping done ch => ?_⟩
    · obtain ⟨counted, loud, many⟩ := searches_iff.mp searches
      refine ⟨loud, _, many, fun m there => ?_⟩
      rw [Finset.mem_filter, Finset.mem_Ico] at there
      refine ⟨there.1.2, there.2, fun k after before => ?_⟩
      have counts := there.1.1.trans after
      exact ⟨examined_since counts before, not_searches counts before⟩
    · obtain ⟨counted, loud, many⟩ := searches_iff.mp again
      have held := start_mono settings x (Nat.succ_le_of_lt later)
      rw [Nat.succ_eq_add_one, start_search searches] at held
      by_contra near
      have whole := louds_succ settings x counted
      rw [if_pos loud, many] at whole
      have more := louds_mono settings x held (show m + 1 ≤ n + holdoffSamples + 1 by omega)
      have few := quiet n searches
      omega
    · exact search_edges (searched done).symm ch

/-- Noise as the program computes it from its standard deviations, and the hold-off as large as 16 bits allow. -/
def measured : Settings where
  noisePower := ![8515657662464, 7120074309632, 7000765759488, 9395985448960]
  holdoffNSamples := 65535

/-- All channels at the greatest sample. -/
def saturated : Stream where
  samples _ _ := 32767
  memory _ _ := 0

theorem loud_saturated (n : ℕ) : Loud measured saturated n := by
  have threshold : ∀ ch, (20 * measured.noisePower ch).toNat ≤ energy ch 32767 := by decide
  have inside : n + 1 - blockSize ≤ n := by
    simp only [blockSize]
    omega
  rw [Loud, State.triggered, List.all_eq_true]
  intro ch _
  have last : energy ch 32767 ≤ windowEnergy saturated ch (n + 1 - blockSize) (n + 1) :=
    Finset.single_le_sum (f := fun m => energy ch (saturated.samples m ch)) (fun m _ => Nat.zero_le _)
      (Finset.mem_Ico.mpr ⟨inside, Nat.lt_succ_self n⟩)
  have least := threshold ch
  rw [Bool.not_eq_true', decide_eq_false_iff_not, BitVec.lt_def, stored_power]
  omega

/-- While the signal stays loud, searches are as close as the hold-off and the hold-on of the counters. -/
theorem triggers_saturated : ¬ Correct measured saturated := by
  intro correct
  have every : ∀ first last, louds measured saturated first last = last - first := by
    intro first last
    rw [louds, Finset.filter_true_of_mem fun m _ => loud_saturated m, Nat.card_Ico]
  obtain ⟨n, -, -, searches⟩ := searches_of_louds measured saturated (Nat.zero_le 129) (by rw [every]; decide)
  have many : holdonNSamples < louds measured saturated (start measured saturated (n + 1)) (n + holdoffSamples + 1) := by
    have width : measured.holdoffNSamples.toNat = 65535 := rfl
    rw [start_search searches, every, width]
    simp only [holdonNSamples, holdoffSamples]
    omega
  obtain ⟨m, later, near, again⟩ := searches_of_louds measured saturated (by omega) many
  have apart := correct.apart n m searches again later
  omega

end Tortuga.PingTriggers
