import Mathlib.Algebra.Order.BigOperators.Ring.Finset
import Mathlib.Logic.Function.Iterate
import Tortuga.Multipinger

/-!
The running power of the multi-pinger, and the working power of the scan for an edge: each is the power of a
window of samples, whatever the samples are.
-/
namespace Tortuga.PingEdges
open Tortuga.SlidingWindows Tortuga.Multipinger
set_option linter.unusedSimpArgs false

/-- The power of a sample, in the units of the oversampled power. -/
def energy (ch : Fin nChannels) (sample : BitVec 16) : ℕ := (sample.toInt * 4096 - (average ch).toInt).natAbs ^ 2

/-- The power of a window of samples. -/
def windowEnergy (x : Stream) (ch : Fin nChannels) (first last : ℕ) : ℕ := ∑ m ∈ Finset.Ico first last, energy ch (x.samples m ch)

/-- The state in which the turn for the sample `n` looks for a ping: the sample is stored. -/
def stored (settings : Settings) (x : Stream) (n : ℕ) : State := (run settings x n).store (x.samples n)

/-- The scan of a channel for an edge, from the sample `n`, after `k` steps back. -/
def scanned (settings : Settings) (x : Stream) (n : ℕ) (ch : Fin nChannels) (k : ℕ) : Scan :=
  let s := stored settings x n
  (Scan.back (s.channels ch) ch)^[k] (Scan.start (s.channels ch) s.iLookback)

/-- The powers at the sample `n` are those of windows of samples, and the scan comes to an end. -/
structure Correct (settings : Settings) (x : Stream) (n : ℕ) : Prop where
  power : ∀ ch, ((stored settings x n).channels ch).power.toNat = windowEnergy x ch (n + 1 - blockSize) (n + 1)
  ends : ∀ ch, let s := stored settings x n
    ∃ k < lookbackBufSize,
      (Scan.start (s.channels ch) s.iLookback).run (s.channels ch) ch (settings.noisePower ch) s.iLookback = scanned settings x n ch (k + 1) ∧
        (∀ j < k, (scanned settings x n ch (j + 1)).Continues (settings.noisePower ch) s.iLookback) ∧
        ¬ (scanned settings x n ch (k + 1)).Continues (settings.noisePower ch) s.iLookback
  working : lookbackBufSize ≤ n + 1 → ∀ ch, ∀ k < lookbackBufSize, (scanned settings x n ch k).dupPower.toNat =
    if k < blockSize then windowEnergy x ch (n + 1 - blockSize) (n + 1) else windowEnergy x ch (n - k) (n - k + blockSize)

section
variable {settings : Settings} {x : Stream} {ch : Fin nChannels} {c : Channel} {n k : ℕ}

/-! ### The power of a sample -/

theorem average_bounds (ch : Fin nChannels) : -7971855 ≤ (average ch).toInt ∧ (average ch).toInt ≤ 0 := by
  revert ch
  decide

theorem offset_bounds (ch : Fin nChannels) (sample : BitVec 16) :
    -142200000 < sample.toInt * 4096 - (average ch).toInt ∧ sample.toInt * 4096 - (average ch).toInt < 142200000 := by
  have bounds := average_bounds ch
  have low := BitVec.le_toInt sample
  have high := BitVec.toInt_lt (x := sample)
  omega

/-- The difference fits into 32 bits. -/
theorem toInt_diff (ch : Fin nChannels) (sample : BitVec 16) : (diff ch sample).toInt = sample.toInt * 4096 - (average ch).toInt := by
  have low := BitVec.le_toInt sample
  have high := BitVec.toInt_lt (x := sample)
  have bounds := offset_bounds ch sample
  have shifted : (sample.signExtend 32 <<< powerOversampleBits).toInt = sample.toInt * 4096 := by
    have power : (BitVec.twoPow 32 powerOversampleBits).toInt = 4096 := by decide
    rw [BitVec.shiftLeft_eq_mul_twoPow, BitVec.toInt_mul, BitVec.toInt_signExtend_of_le (by decide), power]
    exact Int.bmod_eq_of_le (by omega) (by omega)
  rw [diff, BitVec.toInt_sub, shifted]
  exact Int.bmod_eq_of_le (by omega) (by omega)

theorem energy_le (ch : Fin nChannels) (sample : BitVec 16) : energy ch sample ≤ 142200000 ^ 2 := by
  have bounds := offset_bounds ch sample
  exact Nat.pow_le_pow_left (by omega) 2

/-- The power fits into 64 bits. -/
theorem toNat_samplePower (ch : Fin nChannels) (sample : BitVec 16) : (samplePower ch sample).toNat = energy ch sample := by
  have bound := energy_le ch sample
  have square : (energy ch sample : ℤ) = (diff ch sample).toInt * (diff ch sample).toInt := by
    rw [toInt_diff, energy, sq]
    exact Int.natAbs_mul_self
  have signed : (samplePower ch sample).toInt = energy ch sample := by
    rw [samplePower, BitVec.toInt_mul, BitVec.toInt_signExtend_of_le (by decide), ← square]
    exact Int.bmod_eq_of_le (by omega) (by omega)
  rw [BitVec.toInt_eq_toNat_cond] at signed
  split at signed <;> omega

theorem toNat_sum (s : Finset ℕ) (f : ℕ → BitVec 64) : (∑ m ∈ s, f m).toNat = (∑ m ∈ s, (f m).toNat) % 2 ^ 64 := by
  induction s using Finset.induction_on with
  | empty => rfl
  | insert m s new ih =>
    rw [Finset.sum_insert new, Finset.sum_insert new, BitVec.toNat_add, ih, Nat.add_mod_mod]

/-- The power of a window of at most 256 samples fits as well. -/
theorem toNat_window (x : Stream) (ch : Fin nChannels) {first last : ℕ} (small : last - first ≤ blockSize) :
    (∑ m ∈ Finset.Ico first last, samplePower ch (x.samples m ch)).toNat = windowEnergy x ch first last := by
  simp only [toNat_sum, toNat_samplePower]
  refine Nat.mod_eq_of_lt ?_
  have bound := Finset.sum_le_card_nsmul (Finset.Ico first last) (fun m => energy ch (x.samples m ch)) _ fun m _ => energy_le ch _
  rw [Nat.card_Ico, nsmul_eq_mul, Nat.cast_id] at bound
  have whole := Nat.mul_le_mul_right (142200000 ^ 2) small
  exact (bound.trans whole).trans_lt (by decide)

/-! ### The running power -/

/-- The powers of the samples of a channel. -/
def powers (x : Stream) (ch : Fin nChannels) (n : ℕ) : BitVec 64 := samplePower ch (x.samples n ch)

/-- The buffers of a channel after `n` samples. -/
structure Buffers (x : Stream) (ch : Fin nChannels) (n : ℕ) (c : Channel) : Prop where
  lookback : Keeps c.lookbackBuf (fun m => x.samples m ch) n
  powerBuf : Holds c.powerBuf (powers x ch) n
  power : c.power = windowSum (powers x ch) blockSize n

theorem buffers_new (x : Stream) (ch : Fin nChannels) : Buffers x ch 0 .new where
  lookback m none := absurd none (Nat.not_lt_zero m)
  powerBuf := holds_zero (powers x ch)
  power := (windowSum_zero (f := powers x ch) (N := blockSize)).symm

/-- Both rings are in step. -/
theorem iPower_ofNat (n : ℕ) : iPower (Fin.ofNat lookbackBufSize n) = Fin.ofNat blockSize n := by
  apply Fin.ext
  have low : n % lookbackBufSize &&& (blockSize - 1) = n % lookbackBufSize % blockSize := Nat.and_two_pow_sub_one_eq_mod _ 8
  exact low.trans (Nat.mod_mod_of_dvd n (by decide))

theorem Buffers.store (buffers : Buffers x ch n c) : Buffers x ch (n + 1) (c.store ch (Fin.ofNat lookbackBufSize n) (x.samples n ch)) := by
  have leaves := buffers.powerBuf.next
  constructor
  · exact buffers.lookback.succ
  · rw [Channel.store, Function.update_self, iPower_ofNat]
    exact buffers.powerBuf.succ
  · rw [Channel.store, Function.update_self, iPower_ofNat, Function.update_self, leaves, buffers.power]
    exact (windowSum_succ (powers x ch) blockSize n).symm

theorem next_ofNat (n : ℕ) : next (Fin.ofNat lookbackBufSize n) = Fin.ofNat lookbackBufSize (n + 1) := by
  apply Fin.ext
  simp only [next, Fin.val_ofNat, lookbackBufSize]
  split <;> omega

/-- What follows the store leaves the buffers alone. -/
theorem examine_buffers (settings : Settings) (memory : Fin nChannels → ℕ) (s : State) :
    (s.examine settings memory).1.channels = s.channels ∧ (s.examine settings memory).1.iLookback = s.iLookback := by
  rw [State.examine]
  split_ifs <;> exact ⟨rfl, rfl⟩

theorem run_buffers (settings : Settings) (x : Stream) (n : ℕ) :
    (run settings x n).iLookback = Fin.ofNat lookbackBufSize n ∧ ∀ ch, Buffers x ch n ((run settings x n).channels ch) := by
  induction n with
  | zero => exact ⟨rfl, buffers_new x⟩
  | succ n ih =>
    obtain ⟨place, buffers⟩ := ih
    have same := examine_buffers settings (x.memory n) ((run settings x n).store (x.samples n))
    rw [run, State.step]
    refine ⟨?_, fun ch => ?_⟩
    · rw [same.2, State.store, place, next_ofNat]
    · rw [same.1, State.store, place]
      exact (buffers ch).store

/-! ### The scan -/

theorem previous_ofNat (n : ℕ) : previous (Fin.ofNat lookbackBufSize (n + 1)) = Fin.ofNat lookbackBufSize n := by
  apply Fin.ext
  simp only [previous, Fin.val_ofNat, lookbackBufSize]
  split <;> omega

/-- The scan after `k` steps from the sample `n`: its window starts with the sample that it has come to, once this is before
    the window at the start. -/
structure Scanned (x : Stream) (ch : Fin nChannels) (n k : ℕ) (s : Scan) : Prop where
  place : s.iScan = Fin.ofNat lookbackBufSize (n - k)
  powerBuf : HoldsWindow s.dupPowerBuf (powers x ch) (n - max (blockSize - 1) k)
  power : s.dupPower = ∑ m ∈ Finset.Ico (n - max (blockSize - 1) k) (n - max (blockSize - 1) k + blockSize), powers x ch m

theorem scanned_start (buffers : Buffers x ch (n + 1) c) (full : blockSize ≤ n + 1) :
    Scanned x ch n 0 (Scan.start c (Fin.ofNat lookbackBufSize n)) := by
  have first : n - max (blockSize - 1) 0 = n + 1 - blockSize := by
    simp only [blockSize]
    omega
  have last : n + 1 - blockSize + blockSize = n + 1 := Nat.sub_add_cancel full
  have powerBuf := buffers.powerBuf
  rw [← last] at powerBuf
  refine ⟨rfl, ?_, ?_⟩
  · rw [first]
    exact powerBuf.window
  · rw [first, last]
    exact buffers.power

theorem Scanned.back {s : Scan} (scanned : Scanned x ch n k s) (buffers : Buffers x ch (n + 1) c)
    (full : lookbackBufSize ≤ n + 1) (short : k + 1 < lookbackBufSize) : Scanned x ch n (k + 1) (s.back c ch) := by
  simp only [lookbackBufSize] at full short
  obtain ⟨m, same⟩ : ∃ m, n - k = m + 1 := ⟨n - k - 1, by omega⟩
  have near : n + 1 ≤ m + lookbackBufSize := by
    simp only [lookbackBufSize]
    omega
  have sample := buffers.lookback m (by omega) near
  have place := scanned.place
  rw [same] at place
  have before : n - (k + 1) = m := by omega
  have powerBuf := scanned.powerBuf
  have power := scanned.power
  by_cases inside : k + 1 < blockSize
  · have still : max (blockSize - 1) (k + 1) = max (blockSize - 1) k := by
      simp only [blockSize] at inside ⊢
      omega
    have own := powerBuf.update (m := m) (by omega) (by omega)
    have term := powerBuf m (by omega) (by omega)
    refine ⟨?_, ?_, ?_⟩
    · rw [Scan.back, place, previous_ofNat, before]
    · rw [Scan.back, place, previous_ofNat, iPower_ofNat, sample, still]
      exact own.symm ▸ powerBuf
    · rw [Scan.back, place, previous_ofNat, iPower_ofNat, sample, still, Function.update_self, term, power]
      exact sub_add_cancel _ _
  · have old : n - max (blockSize - 1) k = m + 1 := by
      simp only [blockSize] at inside ⊢
      omega
    have new : n - max (blockSize - 1) (k + 1) = m := by
      simp only [blockSize] at inside ⊢
      omega
    rw [old] at powerBuf power
    refine ⟨?_, ?_, ?_⟩
    · rw [Scan.back, place, previous_ofNat, before]
    · rw [Scan.back, place, previous_ofNat, iPower_ofNat, sample, new]
      exact powerBuf.back.2
    · rw [Scan.back, place, previous_ofNat, iPower_ofNat, sample, new, Function.update_self, powerBuf.back.1, power]
      exact sum_back (powers x ch) blockSize m

theorem scanned_iterate (buffers : Buffers x ch (n + 1) c) (full : lookbackBufSize ≤ n + 1) (short : k < lookbackBufSize) :
    Scanned x ch n k ((Scan.back c ch)^[k] (Scan.start c (Fin.ofNat lookbackBufSize n))) := by
  induction k with
  | zero => exact scanned_start buffers ((show blockSize ≤ lookbackBufSize by decide).trans full)
  | succ k ih =>
    rw [Function.iterate_succ_apply']
    exact (ih (Nat.lt_of_succ_lt short)).back buffers full short

theorem distance_pos (iLookback iScan : Fin lookbackBufSize) : 0 < distance iLookback iScan := by
  have bound := iLookback.isLt
  simp only [distance, Fin.le_def, lookbackBufSize] at bound ⊢
  split <;> omega

/-- The loop is its body, as often as it goes on. -/
theorem run_iterate (c : Channel) (ch : Fin nChannels) (noisePower : BitVec 64) (iLookback : Fin lookbackBufSize) (s : Scan) :
    ∃ k < distance iLookback s.iScan, s.run c ch noisePower iLookback = (Scan.back c ch)^[k + 1] s ∧
      (∀ j < k, ((Scan.back c ch)^[j + 1] s).Continues noisePower iLookback) ∧
      ¬ ((Scan.back c ch)^[k + 1] s).Continues noisePower iLookback := by
  induction s using Scan.run.induct c ch noisePower iLookback with
  | case1 s more ih =>
    obtain ⟨k, bound, result, goes, ends⟩ := ih
    have closer : distance iLookback (s.back c ch).iScan + 1 = distance iLookback s.iScan := distance_previous more.1
    refine ⟨k + 1, by omega, ?_, fun j less => ?_, ends⟩
    · rw [Scan.run, dif_pos more]
      exact result
    · cases j with
      | zero => exact more
      | succ j => exact goes j (Nat.lt_of_succ_lt_succ less)
  | case2 s ends =>
    refine ⟨0, ?_, ?_, fun j none => absurd none (Nat.not_lt_zero j), ends⟩
    · exact distance_pos iLookback s.iScan
    · rw [Scan.run, dif_neg ends]
      rfl

theorem stored_buffers (settings : Settings) (x : Stream) (n : ℕ) :
    (stored settings x n).iLookback = Fin.ofNat lookbackBufSize n ∧ ∀ ch, Buffers x ch (n + 1) ((stored settings x n).channels ch) := by
  obtain ⟨place, buffers⟩ := run_buffers settings x n
  refine ⟨place, fun ch => ?_⟩
  rw [stored, State.store, place]
  exact (buffers ch).store

theorem stored_power (settings : Settings) (x : Stream) (n : ℕ) (ch : Fin nChannels) :
    ((stored settings x n).channels ch).power.toNat = windowEnergy x ch (n + 1 - blockSize) (n + 1) := by
  rw [((stored_buffers settings x n).2 ch).power]
  exact toNat_window x ch (by omega)

theorem distance_self (iLookback : Fin lookbackBufSize) : distance iLookback iLookback = lookbackBufSize := by
  rw [distance, if_pos le_rfl, Nat.add_sub_cancel_left]

end

/-- The powers are exact at every sample of every stream, and so is the scan once the buffer has been filled. -/
theorem powers_correct (settings : Settings) (x : Stream) (n : ℕ) : Correct settings x n := by
  obtain ⟨place, buffers⟩ := stored_buffers settings x n
  constructor
  · exact stored_power settings x n
  · intro ch
    have whole := run_iterate ((stored settings x n).channels ch) ch (settings.noisePower ch) (stored settings x n).iLookback
      (Scan.start ((stored settings x n).channels ch) (stored settings x n).iLookback)
    rw [Scan.start, distance_self] at whole
    exact whole
  · intro full ch k short
    have power := (scanned_iterate (buffers ch) full short).power
    rw [scanned, place, power]
    split_ifs with inside
    · have first : n - max (blockSize - 1) k = n + 1 - blockSize := by
        simp only [blockSize] at inside ⊢
        omega
      have last : n + 1 - blockSize + blockSize = n + 1 :=
        Nat.sub_add_cancel ((show blockSize ≤ lookbackBufSize by decide).trans full)
      rw [first, last]
      exact toNat_window x ch (by omega)
    · have first : n - max (blockSize - 1) k = n - k := by
        simp only [blockSize] at inside ⊢
        omega
      rw [first]
      exact toNat_window x ch (by omega)

end Tortuga.PingEdges
