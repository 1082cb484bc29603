import Tortuga.SlidingWindows
import Tortuga.Spectra

/-!
One bin of a sliding transform (`TiledSlidingDFT.h`), "implemented as a sliding dot product": a ring
keeps the terms of the sum, and each update takes out the oldest and puts in the newest.
-/
namespace Tortuga.TiledDft
open Tortuga.AdcTypes Tortuga.Spectra Tortuga.SlidingWindows
set_option linter.unusedSimpArgs false

structure TiledSlidingDFT (N nchannels : ℕ) where
  coefreal : Fin N → ℤ
  coefimag : Fin N → ℤ
  windowreal : Fin nchannels → Fin N → ℤ
  windowimag : Fin nchannels → Fin N → ℤ
  sumreal : Fin nchannels → ℤ
  sumimag : Fin nchannels → ℤ
  mag : Fin nchannels → ℤ
  curidx : Fin N

variable {N nchannels : ℕ} [NeZero N]

def TiledSlidingDFT.purge (s : TiledSlidingDFT N nchannels) : TiledSlidingDFT N nchannels where
  coefreal := s.coefreal
  coefimag := s.coefimag
  windowreal _ _ := 0
  windowimag _ _ := 0
  sumreal _ := 0
  sumimag _ := 0
  mag _ := 0
  curidx := 0

/-- The constructor, with the coefficients that it computes in floating point and what was in the memory.
    There is no object when the assertion fails: "optimized for N divisible by k". -/
def TiledSlidingDFT.new (k : ℕ) (coefreal coefimag : Fin N → ℤ) (memory : TiledSlidingDFT N nchannels) :
    Option (TiledSlidingDFT N nchannels) :=
  if N % k = 0 then some { memory with coefreal, coefimag }.purge else none

section
variable (bits : ℕ)

/-- A result that is stored as `ADC::DOUBLE_WIDE::SIGNED`. -/
def stored (x : ℤ) : ℤ := signed (2 * bits) (promoted (2 * bits) x)

/-- `sum -= old; sum += term;` -/
def exchange (sum old term : ℤ) : ℤ := stored bits (stored bits (sum - old) + term)

def TiledSlidingDFT.update (sample : Fin nchannels → ℤ) (s : TiledSlidingDFT N nchannels) : TiledSlidingDFT N nchannels :=
  let real channel := stored bits (s.coefreal s.curidx * sample channel)
  let imag channel := stored bits (s.coefimag s.curidx * sample channel)
  let sumreal channel := exchange bits (s.sumreal channel) (s.windowreal channel s.curidx) (real channel)
  let sumimag channel := exchange bits (s.sumimag channel) (s.windowimag channel s.curidx) (imag channel)
  { coefreal := s.coefreal
    coefimag := s.coefimag
    windowreal channel := Function.update (s.windowreal channel) s.curidx (real channel)
    windowimag channel := Function.update (s.windowimag channel) s.curidx (imag channel)
    sumreal, sumimag
    -- the L1 norm
    mag channel := stored bits (promoted (2 * bits) |sumreal channel| + promoted (2 * bits) |sumimag channel|)
    curidx := slide s.curidx }

/-- The object after the first `n` samples of a sequence. -/
def TiledSlidingDFT.run (x : ℕ → Fin nchannels → ℤ) (s : TiledSlidingDFT N nchannels) : ℕ → TiledSlidingDFT N nchannels
  | 0 => s
  | n + 1 => (s.run x n).update bits (x n)

end

def TiledSlidingDFT.getReal (s : TiledSlidingDFT N nchannels) (channel : Fin nchannels) : ℤ := s.sumreal channel
def TiledSlidingDFT.getImag (s : TiledSlidingDFT N nchannels) (channel : Fin nchannels) : ℤ := s.sumimag channel
def TiledSlidingDFT.getMagL1 (s : TiledSlidingDFT N nchannels) (channel : Fin nchannels) : ℤ := s.mag channel

/-- The last `N` of `n` samples, each with the coefficient of its place in the tiling. -/
def directSum (coef : Fin N → ℤ) (x : ℕ → ℤ) (n : ℕ) : ℤ := ∑ m ∈ Finset.Ico (n - N) n, coef (Fin.ofNat N m) * x m

section
variable {bits n : ℕ} {coef window : Fin N → ℤ} {x : ℕ → ℤ} {sum : ℤ}

/-! ### One part of the sum -/

/-- The terms that the code sums. -/
def terms (bits : ℕ) (coef : Fin N → ℤ) (x : ℕ → ℤ) (m : ℕ) : ℤ := stored bits (coef (Fin.ofNat N m) * x m)

omit [NeZero N] in
theorem stored_eq (x : ℤ) : stored bits x = signed (2 * bits) x := signed_promoted le_rfl

theorem exchange_eq (sum old term : ℤ) : exchange bits sum old term = signed (2 * bits) (sum - old + term) := by
  rw [exchange, stored_eq, stored_eq, signed_signed_add]

/-- The ring holds the last terms, and the sum is theirs. -/
structure Slid (bits : ℕ) (coef : Fin N → ℤ) (x : ℕ → ℤ) (n : ℕ) (window : Fin N → ℤ) (sum : ℤ) : Prop where
  holds : Holds window (terms bits coef x) n
  sum : sum = signed (2 * bits) (windowSum (terms bits coef x) N n)

theorem slid_zero (bits : ℕ) (coef : Fin N → ℤ) (x : ℕ → ℤ) : Slid bits coef x 0 (fun _ => 0) 0 where
  holds := holds_zero _
  sum := by rw [windowSum_zero, signed_zero]

theorem Slid.update (slid : Slid bits coef x n window sum) :
    let place := Fin.ofNat N n
    let term := stored bits (coef place * x n)
    Slid bits coef x (n + 1) (Function.update window place term) (exchange bits sum (window place) term) where
  holds := slid.holds.succ
  sum := by
    rw [exchange_eq, slid.sum, slid.holds.next, windowSum_succ, sub_add_eq_add_sub, sub_add_eq_add_sub, add_sub_assoc, add_sub_assoc,
      signed_signed_add]
    rfl

theorem Slid.direct (slid : Slid bits coef x n window sum) : sum = signed (2 * bits) (directSum coef x n) := by
  rw [slid.sum, directSum, windowSum]
  simp only [terms, stored_eq, signed_sum]

/-! ### The object -/

theorem slide_ofNat (n : ℕ) : slide (Fin.ofNat N n) = Fin.ofNat N (n + 1) := by
  have below := Nat.mod_lt n (NeZero.pos N)
  have next : (Fin.ofNat N (n + 1)).val = (n % N + 1) % N := (Nat.mod_add_mod n N 1).symm
  apply Fin.ext
  rw [slide, next]
  split_ifs with room
  · exact (Nat.mod_eq_of_lt room).symm
  · have last : n % N + 1 = N := by
      rw [Fin.val_ofNat] at room
      omega
    rw [last, Nat.mod_self, Fin.val_zero]

/-- The object after `n` updates: all channels have slid, and the index is at the place of the next sample. -/
structure Running (bits : ℕ) (x : ℕ → Fin nchannels → ℤ) (start : TiledSlidingDFT N nchannels) (n : ℕ)
    (s : TiledSlidingDFT N nchannels) : Prop where
  coefreal : s.coefreal = start.coefreal
  coefimag : s.coefimag = start.coefimag
  curidx : s.curidx = Fin.ofNat N n
  real : ∀ channel, Slid bits start.coefreal (fun m => x m channel) n (s.windowreal channel) (s.sumreal channel)
  imag : ∀ channel, Slid bits start.coefimag (fun m => x m channel) n (s.windowimag channel) (s.sumimag channel)

theorem running_purge (bits : ℕ) (x : ℕ → Fin nchannels → ℤ) (s : TiledSlidingDFT N nchannels) : Running bits x s 0 s.purge where
  coefreal := rfl
  coefimag := rfl
  curidx := rfl
  real _ := slid_zero _ _ _
  imag _ := slid_zero _ _ _

theorem Running.update {x : ℕ → Fin nchannels → ℤ} {start s : TiledSlidingDFT N nchannels} (running : Running bits x start n s) :
    Running bits x start (n + 1) (s.update bits (x n)) where
  coefreal := running.coefreal
  coefimag := running.coefimag
  curidx := by rw [TiledSlidingDFT.update, running.curidx, slide_ofNat]
  real channel := by
    rw [TiledSlidingDFT.update, running.curidx, running.coefreal]
    exact (running.real channel).update
  imag channel := by
    rw [TiledSlidingDFT.update, running.curidx, running.coefimag]
    exact (running.imag channel).update

theorem running_run (bits : ℕ) (x : ℕ → Fin nchannels → ℤ) (s : TiledSlidingDFT N nchannels) (n : ℕ) :
    Running bits x s n (s.purge.run bits x n) := by
  induction n with
  | zero => exact running_purge bits x s
  | succ n ih => exact ih.update

/-- Where the sum has room in the type, nothing is left out of it. -/
theorem directSum_of_room (positive : 0 < bits) (coefs : ∀ i, Fits bits (coef i)) (samples : ∀ m, Fits bits (x m))
    (room : (N : ℤ) * 2 ^ (2 * bits - 2) < 2 ^ (machine (2 * bits) - 1)) (n : ℕ) :
    signed (2 * bits) (directSum coef x n) = directSum coef x n := by
  have few : ((Finset.Ico (n - N) n).card : ℤ) ≤ N := by
    rw [Nat.card_Ico]
    omega
  have bound : |directSum coef x n| ≤ N * 2 ^ (2 * bits - 2) := by
    refine (abs_sum_mul_le positive (fun m _ => coefs (Fin.ofNat N m)) fun m _ => samples m).trans ?_
    exact mul_le_mul_of_nonneg_right few (by positivity)
  obtain ⟨low, high⟩ := abs_le.mp bound
  exact signed_of_fits (by linarith) (by linarith)

end

/-- After any samples the sum is the direct one over the last `N` of them, as the type holds it. -/
theorem tiled_direct {s memory : TiledSlidingDFT N nchannels} {k : ℕ} {coefreal coefimag : Fin N → ℤ}
    (made : TiledSlidingDFT.new k coefreal coefimag memory = some s) (bits : ℕ) (x : ℕ → Fin nchannels → ℤ) (n : ℕ)
    (channel : Fin nchannels) : (s.run bits x n).getReal channel = signed (2 * bits) (directSum coefreal (fun m => x m channel) n) ∧
      (s.run bits x n).getImag channel = signed (2 * bits) (directSum coefimag (fun m => x m channel) n) := by
  rw [TiledSlidingDFT.new] at made
  split_ifs at made
  cases made
  have running := running_run bits x { memory with coefreal, coefimag } n
  exact ⟨(running.real channel).direct, (running.imag channel).direct⟩

/-- The coefficients of the second bin of four, in ten bits. -/
def alternating (i : Fin 4) : ℤ := if i.val % 2 = 0 then 511 else -511

def unwritten : TiledSlidingDFT 4 1 := ⟨fun _ => 7, fun _ => 7, fun _ _ => 7, fun _ _ => 7, fun _ => 7, fun _ => 7, fun _ => 7, 3⟩

/-- After six samples: `511 * (2 - 3 + 4 - 5)`. -/
theorem tiled_direct_six : ∃ s, TiledSlidingDFT.new 2 alternating (fun _ => 0) unwritten = some s ∧
    (s.run 10 (fun m _ => m) 6).getReal 0 = -1022 := by
  obtain ⟨s, made⟩ : ∃ s, TiledSlidingDFT.new 2 alternating (fun _ => 0) unwritten = some s := ⟨_, rfl⟩
  refine ⟨s, made, (tiled_direct made 10 (fun m _ => m) 6 0).1.trans ?_⟩
  decide

end Tortuga.TiledDft
