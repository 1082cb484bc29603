import Tortuga.Rotations
import Tortuga.Spectra

/-!
The sums of the sparse spectrum of samples of sixteen bits. Nothing that `update` computes leaves its
type, however long the run: the sums are those of a run in integers without bounds, and stay near
those of a run that does not round.
-/
namespace Tortuga.SpectrumBounds
open Tortuga.AdcTypes Tortuga.Spectra Tortuga.Rotations
set_option linter.unusedSimpArgs false

/-! ### The magnitude -/

/-- `fixed::abs` of an `adc<bits>::SIGNED`. -/
def Fixed.abs (bits : ℕ) (x : ℤ) : ℤ := signed bits (if x < 0 then promoted bits (-x) else x)

/-- "Computes the L1 norm of a complex number a+bi as |a|+|b|." -/
def Fixed.magL1 (bits : ℕ) (a : Amplitude) : ℤ := signed bits (promoted bits (Fixed.abs bits a.real + Fixed.abs bits a.imag))

/-! ### Arithmetic without bounds -/

/-- The body of the loop over the bins, in all integers. -/
def turned (bits : ℕ) (coef four : Amplitude) (diff : ℤ) : Amplitude where
  real := (coef.real * (four.real + diff) - coef.imag * four.imag) >>> (bits - 1)
  imag := (coef.real * four.imag + coef.imag * (four.real + diff)) >>> (bits - 1)

def toComplex (a : Amplitude) : ℂ := ⟨a.real, a.imag⟩

/-- The factor that a coefficient stands for. -/
noncomputable def factor (bits : ℕ) (coef : Amplitude) : ℂ := toComplex coef / (2 ^ (bits - 1) : ℝ)

/-- The body of the loop without the shift that rounds. -/
noncomputable def unrounded (bits : ℕ) (coef : Amplitude) (four : ℂ) (diff : ℤ) : ℂ := factor bits coef * (four + (diff : ℝ))

/-- A sparse spectrum with sums of any kind. -/
structure Sliding (α : Type) (N nchannels nFreqBands : ℕ) where
  idx : Fin N
  data : Fin N → Fin nchannels → ℤ
  sums : Fin nFreqBands → Fin nchannels → α

section
variable {α : Type} {N nchannels nFreqBands : ℕ} [NeZero N] (turn : Amplitude → α → ℤ → α) (zero : α) (coefs : Fin nFreqBands → Amplitude)

def Sliding.new : Sliding α N nchannels nFreqBands := ⟨lastIdx, fun _ _ => 0, fun _ _ => zero⟩

def Sliding.call (s : Sliding α N nchannels nFreqBands) : Call nchannels → Sliding α N nchannels nFreqBands
  | .update sample =>
    { idx := slide s.idx
      data i := if i = s.idx then sample else s.data i
      sums kIdx channel := turn (coefs kIdx) (s.sums kIdx channel) (sample channel - s.data s.idx channel) }
  | .purge => .new zero

def Sliding.run (calls : List (Call nchannels)) : Sliding α N nchannels nFreqBands :=
  calls.foldl (Sliding.call turn zero coefs) (.new zero)

theorem Sliding.run_append (calls : List (Call nchannels)) (c : Call nchannels) :
    Sliding.run (N := N) turn zero coefs (calls ++ [c]) = (Sliding.run turn zero coefs calls).call turn zero coefs c := by
  rw [Sliding.run, Sliding.run, List.foldl_append]
  rfl

end

/-! ### What fits -/

/-- Each value in the body of the loop fits the type that it has there. -/
structure Exact (bits : ℕ) (coef four : Amplitude) (diff : ℤ) : Prop where
  pushed : Fits (2 * bits) diff
  rhsRe : Fits (2 * bits) (four.real + diff)
  coefRe_rhsRe : Fits (4 * bits) (coef.real * (four.real + diff))
  coefIm_fourIm : Fits (4 * bits) (coef.imag * four.imag)
  coefRe_fourIm : Fits (4 * bits) (coef.real * four.imag)
  coefIm_rhsRe : Fits (4 * bits) (coef.imag * (four.real + diff))
  wideRe : Fits (4 * bits) (coef.real * (four.real + diff) - coef.imag * four.imag)
  wideIm : Fits (4 * bits) (coef.real * four.imag + coef.imag * (four.real + diff))
  fourRe : Fits (2 * bits) (turned bits coef four diff).real
  fourIm : Fits (2 * bits) (turned bits coef four diff).imag

/-- The amplitude and all that `magL1` computes of it fit. -/
structure Measured (bits : ℕ) (a : Amplitude) : Prop where
  real : Fits bits a.real
  imag : Fits bits a.imag
  abs_real : Fits bits |a.real|
  abs_imag : Fits bits |a.imag|
  sum : Fits bits (|a.real| + |a.imag|)
  magL1 : Fixed.magL1 bits a = |a.real| + |a.imag|

section
variable {bits : ℕ} {x : ℤ} {coef four a : Amplitude} {diff : ℤ}

/-- Where everything fits the code computes in all integers. -/
theorem Exact.rotate_eq (exact : Exact bits coef four diff) (positive : 0 < bits) (le : bits ≤ 16) :
    rotate bits coef four diff = turned bits coef four diff := by
  have double : 0 < 2 * bits ∧ 2 * bits ≤ 64 := by omega
  have quadruple : 0 < 4 * bits ∧ 4 * bits ≤ 64 := by omega
  have real : signed (2 * bits) (turned bits coef four diff).real = _ := exact.fourRe.signed double.1 double.2
  have imag : signed (2 * bits) (turned bits coef four diff).imag = _ := exact.fourIm.signed double.1 double.2
  rw [turned] at real imag ⊢
  simp only [rotate, exact.rhsRe.promoted double.1 double.2, exact.rhsRe.signed double.1 double.2,
    exact.coefRe_rhsRe.promoted quadruple.1 quadruple.2, exact.coefIm_fourIm.promoted quadruple.1 quadruple.2,
    exact.coefRe_fourIm.promoted quadruple.1 quadruple.2, exact.coefIm_rhsRe.promoted quadruple.1 quadruple.2,
    exact.wideRe.promoted quadruple.1 quadruple.2, exact.wideIm.promoted quadruple.1 quadruple.2, real, imag]

theorem abs_eq (fits : Fits bits |x|) (positive : 0 < bits) (le : bits ≤ 64) : Fixed.abs bits x = |x| := by
  rw [Fixed.abs]
  split_ifs with negative
  · rw [abs_of_neg negative] at fits ⊢
    rw [fits.promoted positive le, fits.signed positive le]
  · rw [abs_of_nonneg (not_lt.mp negative)] at fits ⊢
    exact fits.signed positive le

theorem Measured.of_sum (room : |a.real| + |a.imag| ≤ signedMax bits) (positive : 0 < bits) (le : bits ≤ 64) : Measured bits a := by
  have real := abs_nonneg a.real
  have imag := abs_nonneg a.imag
  have fits : Fits bits (|a.real| + |a.imag|) := Fits.of_abs (abs_of_nonneg (add_nonneg real imag)).le room
  have first : Fits bits |a.real| := Fits.of_abs (abs_abs a.real).le (by linarith)
  have second : Fits bits |a.imag| := Fits.of_abs (abs_abs a.imag).le (by linarith)
  refine ⟨.of_abs le_rfl (by linarith), .of_abs le_rfl (by linarith), first, second, fits, ?_⟩
  rw [Fixed.magL1, abs_eq first positive le, abs_eq second positive le, fits.promoted positive le, fits.signed positive le]

end

/-! ### Sums that stay bounded -/

/-- The sums of a bin stay in a set where there is room for the next difference. -/
def Contained (coef : Amplitude) : Prop :=
  ∃ region : Amplitude → Prop, region .zero ∧
    (∀ four, region four → ∀ diff, |diff| ≤ 65535 → region (turned 16 coef four diff)) ∧
    ∀ four, region four → |four.real| + 65535 ≤ signedMax 32 ∧ |four.real| + |four.imag| ≤ signedMax 32

section
variable {coef four : Amplitude} {diff x y bound : ℤ}

theorem signedMax_thirty_two : signedMax 32 = 2147483647 := rfl

theorem shift_eq_div (x : ℤ) : x >>> (15 : ℕ) = x / 32768 := Int.shiftRight_eq_div_pow x 15

theorem abs_shift_le (within : |x| ≤ 32768 * bound) : |x >>> (15 : ℕ)| ≤ bound := by
  obtain ⟨low, high⟩ := abs_le.mp within
  rw [shift_eq_div]
  refine abs_le.mpr ⟨?_, ?_⟩ <;> omega

theorem abs_mul_le (first : |x| ≤ 32767) (second : |y| ≤ bound) : |x * y| ≤ 32767 * bound := by
  rw [abs_mul]
  exact mul_le_mul first second (abs_nonneg y) (by norm_num)

/-- A factor on the real axis keeps the sums on it. -/
theorem contained_of_imag_zero (axis : coef.imag = 0) (small : |coef.real| ≤ 32767) : Contained coef := by
  refine ⟨fun four => four.imag = 0 ∧ |four.real| ≤ 32767 * 65536, ⟨rfl, by decide⟩, ?_, ?_⟩
  · rintro four ⟨flat, inside⟩ diff push
    have sum : |four.real + diff| ≤ 2147483647 := (abs_add_le _ _).trans (by linarith)
    rw [turned, axis, flat, mul_zero, zero_mul, mul_zero, add_zero, sub_zero]
    exact ⟨rfl, abs_shift_le ((abs_mul_le small sum).trans (by norm_num))⟩
  · rintro four ⟨flat, inside⟩
    rw [flat, abs_zero, signedMax_thirty_two]
    constructor <;> linarith

/-- A factor on the imaginary axis has the parts change places. -/
theorem contained_of_real_zero (axis : coef.real = 0) (small : |coef.imag| ≤ 32767) : Contained coef := by
  refine ⟨fun four => |four.real| ≤ 32767 * 32768 ∧ |four.imag| ≤ 32767 * 32769, by decide, ?_, ?_⟩
  · rintro four ⟨first, second⟩ diff push
    have sum : |four.real + diff| ≤ 32767 * 32768 + 65535 := (abs_add_le _ _).trans (by linarith)
    rw [turned, axis, zero_mul, zero_mul, zero_sub, zero_add]
    refine ⟨abs_shift_le ?_, abs_shift_le ?_⟩
    · rw [abs_neg]
      exact (abs_mul_le small second).trans (by norm_num)
    · exact (abs_mul_le small sum).trans (by norm_num)
  · rintro four ⟨first, second⟩
    rw [signedMax_thirty_two]
    constructor <;> linarith

/-! ### In complex numbers -/

theorem factor_eq (coef : Amplitude) : factor 16 coef = ⟨coef.real / 32768, coef.imag / 32768⟩ := by
  apply Complex.ext
  · rw [factor, Complex.div_ofReal_re, toComplex]
    norm_num
  · rw [factor, Complex.div_ofReal_im, toComplex]
    norm_num

/-- The shift leaves out less than one. -/
theorem shift_eq (x : ℤ) : ∃ rest : ℝ, 0 ≤ rest ∧ rest ≤ 1 ∧ ((x >>> (15 : ℕ) : ℤ) : ℝ) = x / 32768 - rest := by
  have split : (32768 : ℤ) * (x / 32768) + x % 32768 = x := Int.mul_ediv_add_emod x 32768
  have low : (0 : ℝ) ≤ (x % 32768 : ℤ) := Int.cast_nonneg (Int.emod_nonneg x (by norm_num))
  have high : ((x % 32768 : ℤ) : ℝ) ≤ 32768 := by
    have below := Int.emod_lt_of_pos x (b := 32768) (by norm_num)
    exact_mod_cast below.le
  have real := congrArg (Int.cast (R := ℝ)) split
  rw [Int.cast_add, Int.cast_mul, Int.cast_ofNat] at real
  rw [shift_eq_div]
  refine ⟨(x % 32768 : ℤ) / 32768, by positivity, ?_, ?_⟩ <;> linarith

/-- The code adds, turns and makes a small error. -/
theorem toComplex_turned (coef four : Amplitude) (diff : ℤ) :
    ∃ e : ℂ, ‖e‖ ≤ 3 / 2 ∧ toComplex (turned 16 coef four diff) = factor 16 coef * (toComplex four + (diff : ℝ)) + e := by
  obtain ⟨f, f_low, f_high, real⟩ := shift_eq (coef.real * (four.real + diff) - coef.imag * four.imag)
  obtain ⟨g, g_low, g_high, imag⟩ := shift_eq (coef.real * four.imag + coef.imag * (four.real + diff))
  refine ⟨⟨-f, -g⟩, ?_, ?_⟩
  · have square : ‖(⟨-f, -g⟩ : ℂ)‖ ^ 2 ≤ (3 / 2) ^ 2 := by
      rw [Complex.sq_norm, Complex.normSq_mk]
      nlinarith
    exact (sq_le_sq₀ (norm_nonneg _) (by norm_num)).mp square
  · rw [factor_eq]
    apply Complex.ext
    · simp only [toComplex, turned, Complex.add_re, Complex.mul_re, Complex.add_im, Complex.ofReal_re, Complex.ofReal_im]
      rw [real]
      push_cast
      ring
    · simp only [toComplex, turned, Complex.add_im, Complex.mul_im, Complex.add_re, Complex.ofReal_re, Complex.ofReal_im]
      rw [imag]
      push_cast
      ring

theorem contained_of_traps (traps : Traps (factor 16 coef) 65535 (3 / 2) 1452500000) : Contained coef := by
  obtain ⟨region, zero, step, norm⟩ := traps
  refine ⟨fun four => toComplex four ∈ region, ?_, ?_, ?_⟩
  · have origin : toComplex .zero = 0 := by
      apply Complex.ext <;> simp [toComplex, Amplitude.zero]
    rwa [← origin] at zero
  · intro four inside diff push
    obtain ⟨e, error, same⟩ := toComplex_turned coef four diff
    rw [same]
    refine step _ inside diff ?_ e error
    exact_mod_cast push
  · intro four inside
    have square : (four.real : ℝ) ^ 2 + (four.imag : ℝ) ^ 2 ≤ 1452500000 ^ 2 := by
      have short := pow_le_pow_left₀ (norm_nonneg _) (norm _ inside) 2
      rw [Complex.sq_norm, toComplex, Complex.normSq_mk] at short
      linarith
    have sum : |(four.real : ℝ)| + |(four.imag : ℝ)| ≤ 2147483647 - 65535 := by
      have bound : (|(four.real : ℝ)| + |(four.imag : ℝ)|) ^ 2 ≤ (2147483647 - 65535) ^ 2 := by
        nlinarith [sq_nonneg (|(four.real : ℝ)| - |(four.imag : ℝ)|), sq_abs (four.real : ℝ), sq_abs (four.imag : ℝ)]
      exact (sq_le_sq₀ (by positivity) (by norm_num)).mp bound
    have integers : |four.real| + |four.imag| ≤ 2147483647 - 65535 := by exact_mod_cast sum
    have nonneg := abs_nonneg four.imag
    rw [signedMax_thirty_two]
    constructor <;> linarith

theorem sq_norm_factor (coef : Amplitude) : ‖factor 16 coef‖ ^ 2 = ((coef.real ^ 2 + coef.imag ^ 2 : ℤ) : ℝ) / 32768 ^ 2 := by
  rw [factor_eq, Complex.sq_norm, Complex.normSq_mk]
  push_cast
  ring

/-- A factor that is shorter by half a unit. -/
theorem contained_of_short (short : coef.real ^ 2 + coef.imag ^ 2 ≤ 1073643522) : Contained coef := by
  have real : ((coef.real ^ 2 + coef.imag ^ 2 : ℤ) : ℝ) ≤ 1073643522 := by exact_mod_cast short
  have slow : ‖factor 16 coef‖ ≤ 65533 / 65536 := by
    refine (sq_le_sq₀ (norm_nonneg _) (by norm_num)).mp ?_
    rw [sq_norm_factor]
    linarith
  exact contained_of_traps (traps_slow (by norm_num) slow (by norm_num))

/-- The other factors are at least 182 units off both axes: on 181 the longer part would be at the maximum,
    with nothing left for the shorter one. -/
theorem far_of_long (nonzero : x ≠ 0) (y_nonzero : y ≠ 0) (unit : x ^ 2 + y ^ 2 ≤ 32767 ^ 2) (long : 1073643522 < x ^ 2 + y ^ 2) :
    182 ^ 2 ≤ x ^ 2 := by
  by_contra close
  rw [← sq_abs x] at close unit long
  rw [← sq_abs y] at unit long
  have positive := Int.one_le_abs nonzero
  have y_positive := Int.one_le_abs y_nonzero
  have near : |x| ≤ 181 := by nlinarith
  have whole : 32766 < |y| := by nlinarith
  nlinarith

/-- A part of the coefficient, and of its direction. -/
theorem off_axis {sum part direction : ℝ} (far : 182 ^ 2 ≤ part ^ 2) (unit : sum ≤ 32767 ^ 2)
    (same : sum / 32768 ^ 2 * direction ^ 2 = (part / 32768) ^ 2) : 182 ^ 2 / 32767 ^ 2 ≤ direction ^ 2 := by
  rw [div_le_iff₀ (by norm_num)]
  calc (182 : ℝ) ^ 2 ≤ part ^ 2 := far
    _ = sum * direction ^ 2 := by linarith
    _ ≤ 32767 ^ 2 * direction ^ 2 := mul_le_mul_of_nonneg_right unit (sq_nonneg direction)
    _ = direction ^ 2 * 32767 ^ 2 := mul_comm _ _

/-- The other factors leave room since they are off both axes. -/
theorem contained_of_far (first : 182 ^ 2 ≤ coef.real ^ 2) (second : 182 ^ 2 ≤ coef.imag ^ 2)
    (unit : coef.real ^ 2 + coef.imag ^ 2 ≤ 32767 ^ 2) : Contained coef := by
  have norm := sq_norm_factor coef
  have re_sq : (182 : ℝ) ^ 2 ≤ (coef.real : ℝ) ^ 2 := by exact_mod_cast first
  have im_sq : (182 : ℝ) ^ 2 ≤ (coef.imag : ℝ) ^ 2 := by exact_mod_cast second
  have sum : ((coef.real ^ 2 + coef.imag ^ 2 : ℤ) : ℝ) ≤ 32767 ^ 2 := by exact_mod_cast unit
  have re : (factor 16 coef).re = coef.real / 32768 := by rw [factor_eq]
  have im : (factor 16 coef).im = coef.imag / 32768 := by rw [factor_eq]
  have nonzero : factor 16 coef ≠ 0 := by
    intro zero
    rw [zero, Complex.zero_re] at re
    nlinarith
  obtain ⟨w, direction, same, w_re, w_im⟩ := exists_direction nonzero
  have slow : ‖factor 16 coef‖ ≤ 32767 / 32768 := by
    refine (sq_le_sq₀ (norm_nonneg _) (by norm_num)).mp ?_
    rw [norm]
    linarith
  have circle : w.re ^ 2 + w.im ^ 2 = 1 := by
    rw [← Complex.sq_norm_sub_sq_re, direction]
    ring
  rw [norm, re] at w_re
  rw [norm, im] at w_im
  have off_re := off_axis re_sq sum w_re
  have off_im := off_axis im_sq sum w_im
  have product := mul_nonneg (sub_nonneg.mpr off_re) (sub_nonneg.mpr off_im)
  have far : 1 / 100 ≤ ‖w ^ 2 - (32767 / 32768 : ℝ)‖ := by
    refine (sq_le_sq₀ (by norm_num) (norm_nonneg _)).mp ?_
    rw [norm_sq_sub direction]
    linarith
  have far' : 1 / 50 ≤ ‖w ^ 4 - (32767 / 32768 : ℝ)‖ := by
    refine (sq_le_sq₀ (by norm_num) (norm_nonneg _)).mp ?_
    rw [norm_pow_four_sub direction, mul_pow]
    linarith
  have traps : Traps (‖factor 16 coef‖ * w) 65535 (3 / 2) _ :=
    traps_oblique (A := 27 / 40 * (32767 * 65535) + 49152) direction (norm_nonneg _) slow (by norm_num) (by norm_num) far
      (by norm_num) far' (by norm_num) (by norm_num)
  rw [same] at traps
  exact contained_of_traps (traps.mono (by norm_num))

theorem parts_le (unit : coef.real ^ 2 + coef.imag ^ 2 ≤ signedMax 16 ^ 2) : |coef.real| ≤ 32767 ∧ |coef.imag| ≤ 32767 := by
  have unit : coef.real ^ 2 + coef.imag ^ 2 ≤ 32767 ^ 2 := unit
  have real := sq_nonneg coef.real
  have imag := sq_nonneg coef.imag
  exact ⟨abs_le_of_sq_le_sq (by linarith) (by norm_num), abs_le_of_sq_le_sq (by linarith) (by norm_num)⟩

/-- Every coefficient that is no longer than the largest number of sixteen bits. -/
theorem contained (unit : coef.real ^ 2 + coef.imag ^ 2 ≤ signedMax 16 ^ 2) : Contained coef := by
  obtain ⟨real, imag⟩ := parts_le unit
  have unit : coef.real ^ 2 + coef.imag ^ 2 ≤ 32767 ^ 2 := unit
  by_cases short : coef.real ^ 2 + coef.imag ^ 2 ≤ 1073643522
  · exact contained_of_short short
  have long := not_le.mp short
  by_cases flat : coef.imag = 0
  · exact contained_of_imag_zero flat real
  by_cases upright : coef.real = 0
  · exact contained_of_real_zero upright imag
  refine contained_of_far (far_of_long upright flat unit long) (far_of_long flat upright ?_ ?_) unit
  · rwa [add_comm]
  · rwa [add_comm]

end

/-! ### Single calls -/

section
variable {coef four : Amplitude} {diff sample old : ℤ}

theorem abs_difference_le (first : Fits 16 sample) (second : Fits 16 old) : |sample - old| ≤ 65535 := by
  obtain ⟨low, high⟩ : -32768 ≤ sample ∧ sample ≤ 32767 := first
  obtain ⟨old_low, old_high⟩ : -32768 ≤ old ∧ old ≤ 32767 := second
  exact abs_le.mpr ⟨by linarith, by linarith⟩

theorem difference_eq (first : Fits 16 sample) (second : Fits 16 old) : difference 16 sample old = sample - old := by
  obtain ⟨low, high⟩ := abs_le.mp (abs_difference_le first second)
  have whole : promoted 16 (sample - old) = sample - old := by
    refine promoted_of_fits ?_ ?_ <;> norm_num [machine] <;> linarith
  rw [difference, whole]
  exact Fits.signed (Fits.of_abs (abs_difference_le first second) (by decide)) (by norm_num) (by norm_num)

/-- With room for the difference, and for what comes out, everything in between fits. -/
theorem exact_of_room (real : |coef.real| ≤ 32767) (imag : |coef.imag| ≤ 32767) (push : |diff| ≤ 65535)
    (room : |four.real| + 65535 ≤ signedMax 32 ∧ |four.real| + |four.imag| ≤ signedMax 32)
    (next : |(turned 16 coef four diff).real| + |(turned 16 coef four diff).imag| ≤ signedMax 32) : Exact 16 coef four diff := by
  have re := abs_nonneg four.real
  have next_re := abs_nonneg (turned 16 coef four diff).real
  have next_im := abs_nonneg (turned 16 coef four diff).imag
  have sum : |four.real + diff| ≤ signedMax 32 := (abs_add_le _ _).trans (by linarith)
  have other : |four.imag| ≤ signedMax 32 := by linarith
  have first := abs_mul_le real sum
  have second := abs_mul_le imag other
  have third := abs_mul_le real other
  have fourth := abs_mul_le imag sum
  have wide : 32767 * signedMax 32 + 32767 * signedMax 32 ≤ signedMax (4 * 16) := by decide
  have single : 32767 * signedMax 32 ≤ signedMax (4 * 16) := by decide
  exact {
    pushed := .of_abs push (by decide)
    rhsRe := .of_abs sum le_rfl
    coefRe_rhsRe := .of_abs first single
    coefIm_fourIm := .of_abs second single
    coefRe_fourIm := .of_abs third single
    coefIm_rhsRe := .of_abs fourth single
    wideRe := .of_abs ((abs_sub _ _).trans (add_le_add first second)) wide
    wideIm := .of_abs ((abs_add_le _ _).trans (add_le_add third fourth)) wide
    fourRe := .of_abs le_rfl (show _ ≤ signedMax 32 by linarith)
    fourIm := .of_abs le_rfl (show _ ≤ signedMax 32 by linarith) }

theorem norm_factor_le (unit : coef.real ^ 2 + coef.imag ^ 2 ≤ signedMax 16 ^ 2) : ‖factor 16 coef‖ ≤ 32767 / 32768 := by
  have sum : ((coef.real ^ 2 + coef.imag ^ 2 : ℤ) : ℝ) ≤ 32767 ^ 2 := by exact_mod_cast unit
  refine (sq_le_sq₀ (norm_nonneg _) (by norm_num)).mp ?_
  rw [sq_norm_factor]
  linarith

/-- The error of each step is smaller than what the turn takes off. -/
theorem near_turned {ideal : ℂ} (unit : coef.real ^ 2 + coef.imag ^ 2 ≤ signedMax 16 ^ 2) (near : ‖toComplex four - ideal‖ ≤ 49152)
    (diff : ℤ) : ‖toComplex (turned 16 coef four diff) - unrounded 16 coef ideal diff‖ ≤ 49152 := by
  obtain ⟨e, error, same⟩ := toComplex_turned coef four diff
  rw [same, unrounded]
  exact norm_sub_turn_le (norm_factor_le unit) near error (by norm_num)

end

/-! ### Whole runs -/

section
variable {N nchannels nFreqBands : ℕ} [NeZero N] {coefOf : ℤ → Amplitude} {kBands : Fin nFreqBands → ℤ}
  {region : Fin nFreqBands → Amplitude → Prop} {garbage : Fin N → Fin nchannels → ℤ}
  {s : SparseSDFTSpectrum N nchannels nFreqBands} {exact : Sliding Amplitude N nchannels nFreqBands}
  {ideal : Sliding ℂ N nchannels nFreqBands}

/-- The spectrum beside the same run in all integers and the one that does not round. -/
structure Kept (kBands : Fin nFreqBands → ℤ) (region : Fin nFreqBands → Amplitude → Prop) (s : SparseSDFTSpectrum N nchannels nFreqBands)
    (exact : Sliding Amplitude N nchannels nFreqBands) (ideal : Sliding ℂ N nchannels nFreqBands) : Prop where
  bands : s.kBands = kBands
  exact_idx : exact.idx = s.idx
  exact_data : exact.data = s.data
  exact_sums : exact.sums = s.fourier
  ideal_idx : ideal.idx = s.idx
  ideal_data : ideal.data = s.data
  sampled : ∀ i channel, Fits 16 (s.data i channel)
  inside : ∀ kIdx channel, region kIdx (s.fourier kIdx channel)
  near : ∀ kIdx channel, ‖toComplex (s.fourier kIdx channel) - ideal.sums kIdx channel‖ ≤ 49152

theorem kept_new (zero : ∀ kIdx, region kIdx .zero) : Kept kBands region (.new kBands garbage) (.new .zero) (.new 0) where
  bands := rfl
  exact_idx := rfl
  exact_data := rfl
  exact_sums := rfl
  ideal_idx := rfl
  ideal_data := rfl
  sampled _ _ := by
    show Fits 16 0
    decide
  inside kIdx _ := zero kIdx
  near _ _ := by
    have origin : toComplex .zero = 0 := by
      apply Complex.ext <;> simp [toComplex, Amplitude.zero]
    simp only [SparseSDFTSpectrum.new, SparseSDFTSpectrum.purge, Sliding.new, origin, sub_zero, norm_zero]
    norm_num

/-- The coefficients of the bins, with what is known of the sets for their sums. -/
structure Regions (coefOf : ℤ → Amplitude) (kBands : Fin nFreqBands → ℤ) (region : Fin nFreqBands → Amplitude → Prop) : Prop where
  unit : ∀ kIdx, (coefOf (kBands kIdx)).real ^ 2 + (coefOf (kBands kIdx)).imag ^ 2 ≤ signedMax 16 ^ 2
  zero : ∀ kIdx, region kIdx .zero
  step : ∀ kIdx four, region kIdx four → ∀ diff, |diff| ≤ 65535 → region kIdx (turned 16 (coefOf (kBands kIdx)) four diff)
  room : ∀ kIdx four, region kIdx four → |four.real| + 65535 ≤ signedMax 32 ∧ |four.real| + |four.imag| ≤ signedMax 32

theorem exists_regions (unit : ∀ kIdx, (coefOf (kBands kIdx)).real ^ 2 + (coefOf (kBands kIdx)).imag ^ 2 ≤ signedMax 16 ^ 2) :
    ∃ region, Regions coefOf kBands region := by
  choose region zero step room using fun kIdx => contained (unit kIdx)
  exact ⟨region, unit, zero, step, room⟩

omit [NeZero N] in
/-- Whatever comes next, the body of the loop computes in all integers. -/
theorem Kept.fits (kept : Kept kBands region s exact ideal) (regions : Regions coefOf kBands region) {sample : ℤ} (fits : Fits 16 sample)
    (kIdx : Fin nFreqBands) (channel : Fin nchannels) :
    Exact 16 (coefOf (kBands kIdx)) (s.fourier kIdx channel) (sample - s.data s.idx channel) := by
  have push := abs_difference_le fits (kept.sampled s.idx channel)
  have inside := kept.inside kIdx channel
  have next := regions.room kIdx _ (regions.step kIdx _ inside _ push)
  obtain ⟨real, imag⟩ := parts_le (regions.unit kIdx)
  exact exact_of_room real imag push (regions.room kIdx _ inside) next.2

theorem Kept.update (kept : Kept kBands region s exact ideal) (regions : Regions coefOf kBands region) (sample : Fin nchannels → ℤ)
    (fits : ∀ channel, Fits 16 (sample channel)) : let coefs := fun kIdx => coefOf (kBands kIdx)
    Kept kBands region (s.update 16 coefOf sample) (exact.call (turned 16) .zero coefs (.update sample))
      (ideal.call (unrounded 16) 0 coefs (.update sample)) := by
  intro coefs
  have sums : ∀ kIdx channel, (s.update 16 coefOf sample).fourier kIdx channel
      = turned 16 (coefOf (kBands kIdx)) (s.fourier kIdx channel) (sample channel - s.data s.idx channel) := by
    intro kIdx channel
    simp only [SparseSDFTSpectrum.update, kept.bands, difference_eq (fits channel) (kept.sampled s.idx channel)]
    exact (kept.fits regions (fits channel) kIdx channel).rotate_eq (by norm_num) (by norm_num)
  refine ⟨kept.bands, ?_, ?_, ?_, ?_, ?_, ?_, ?_, ?_⟩
  · simp only [Sliding.call, SparseSDFTSpectrum.update, kept.exact_idx]
  · simp only [Sliding.call, SparseSDFTSpectrum.update, kept.exact_idx, kept.exact_data]
  · funext kIdx channel
    rw [sums, Sliding.call, kept.exact_idx, kept.exact_data, kept.exact_sums]
  · simp only [Sliding.call, SparseSDFTSpectrum.update, kept.ideal_idx]
  · simp only [Sliding.call, SparseSDFTSpectrum.update, kept.ideal_idx, kept.ideal_data]
  · intro i channel
    simp only [SparseSDFTSpectrum.update]
    split_ifs
    · exact fits channel
    · exact kept.sampled i channel
  · intro kIdx channel
    rw [sums]
    exact regions.step kIdx _ (kept.inside kIdx channel) _ (abs_difference_le (fits channel) (kept.sampled s.idx channel))
  · intro kIdx channel
    rw [sums, Sliding.call, kept.ideal_idx, kept.ideal_data]
    exact near_turned (regions.unit kIdx) (kept.near kIdx channel) _

/-- The samples of the calls are numbers of sixteen bits. -/
def Sampled (calls : List (Call nchannels)) : Prop := ∀ sample, .update sample ∈ calls → ∀ channel, Fits 16 (sample channel)

theorem kept_run (regions : Regions coefOf kBands region) (garbage : Fin N → Fin nchannels → ℤ) (calls : List (Call nchannels))
    (sampled : Sampled calls) : let coefs := fun kIdx => coefOf (kBands kIdx)
    Kept kBands region (sparse 16 coefOf kBands garbage calls) (.run (turned 16) .zero coefs calls)
      (.run (unrounded 16) 0 coefs calls) := by
  intro coefs
  induction calls using List.reverseRecOn with
  | nil => exact kept_new regions.zero
  | append_singleton calls c ih =>
    have kept := ih fun sample there => sampled sample (List.mem_append_left _ there)
    rw [sparse_append, Sliding.run_append, Sliding.run_append]
    cases c with
    | update sample => exact kept.update regions sample (sampled sample (List.mem_append_right _ (List.mem_singleton_self _)))
    | purge =>
      have new : (sparse 16 coefOf kBands garbage calls).call 16 coefOf .purge = .new kBands garbage := by
        simp only [SparseSDFTSpectrum.call, SparseSDFTSpectrum.purge, SparseSDFTSpectrum.new, kept.bands]
      rw [new]
      exact kept_new regions.zero

/-- Nothing in the spectrum, and nothing that the next `update` computes, leaves its type. The sums are those
    of all integers, and the rounding has moved them by 49152 at most, however long ago the last `purge` was. -/
structure Bounded (coefOf : ℤ → Amplitude) (kBands : Fin nFreqBands → ℤ) (calls : List (Call nchannels))
    (s : SparseSDFTSpectrum N nchannels nFreqBands) : Prop where
  exact : s.fourier = (Sliding.run (N := N) (turned 16) .zero (fun kIdx => coefOf (kBands kIdx)) calls).sums
  stored : ∀ kIdx channel, Measured 32 (s.getAmplitudeForBinIndex kIdx channel)
  next : ∀ sample, Fits 16 sample → ∀ kIdx channel,
    Exact 16 (coefOf (kBands kIdx)) (s.fourier kIdx channel) (sample - s.data s.idx channel)
  near : ∀ kIdx channel, ‖toComplex (s.fourier kIdx channel)
    - (Sliding.run (N := N) (unrounded 16) 0 (fun kIdx => coefOf (kBands kIdx)) calls).sums kIdx channel‖ ≤ 49152

end

end Tortuga.SpectrumBounds
