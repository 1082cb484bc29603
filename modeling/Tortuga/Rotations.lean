import Mathlib.Analysis.Complex.Basic

/-!
A complex number that each step adds a real number to, turns by a factor of norm below one, and
puts a small error on. How far it gets depends on the direction of the factor: where the pushes
come in phase with the turns it gets to the edge of a disc, elsewhere it stays in a smaller set.
-/
namespace Tortuga.Rotations
open Complex ComplexConjugate

/-- The numbers stay within a norm, whatever is added in each step. -/
def Traps (turn : ℂ) (D ε K : ℝ) : Prop :=
  ∃ region : Set ℂ, 0 ∈ region ∧
    (∀ z ∈ region, ∀ d : ℝ, |d| ≤ D → ∀ e, ‖e‖ ≤ ε → turn * (z + d) + e ∈ region) ∧ ∀ z ∈ region, ‖z‖ ≤ K

variable {turn w z z' d e B C v : ℂ} {q r A D ε K E b c : ℝ} {h : ℂ → ℝ}

theorem Traps.mono (traps : Traps turn D ε K) (le : K ≤ E) : Traps turn D ε E := by
  obtain ⟨region, zero, step, norm⟩ := traps
  exact ⟨region, zero, step, fun z inside => (norm z inside).trans le⟩

/-! ### Discs -/

theorem norm_turn_le (slow : ‖turn‖ ≤ q) (inside : ‖z‖ ≤ K) (push : ‖d‖ ≤ D) (error : ‖e‖ ≤ ε) (room : q * (K + D) + ε ≤ K) :
    ‖turn * (z + d) + e‖ ≤ K := by
  have sum : ‖z + d‖ ≤ K + D := (norm_add_le z d).trans (add_le_add inside push)
  calc ‖turn * (z + d) + e‖ ≤ ‖turn‖ * ‖z + d‖ + ‖e‖ := by
        rw [← norm_mul]
        exact norm_add_le _ _
    _ ≤ q * (K + D) + ε := add_le_add (mul_le_mul slow sum (norm_nonneg _) ((norm_nonneg _).trans slow)) error
    _ ≤ K := room

theorem traps_slow (nonneg : 0 ≤ K) (slow : ‖turn‖ ≤ q) (room : q * (K + D) + ε ≤ K) : Traps turn D ε K := by
  refine ⟨{z | ‖z‖ ≤ K}, ?_, ?_, fun z inside => inside⟩
  · rw [Set.mem_ofPred_eq, norm_zero]
    exact nonneg
  · intro z inside d push e error
    refine norm_turn_le slow inside ?_ error room
    rwa [norm_real]

/-- The steps without their errors stay near. -/
theorem norm_sub_turn_le (slow : ‖turn‖ ≤ q) (near : ‖z - z'‖ ≤ E) (error : ‖e‖ ≤ ε) (room : q * E + ε ≤ E) :
    ‖turn * (z + d) + e - turn * (z' + d)‖ ≤ E := by
  have same : turn * (z + d) + e - turn * (z' + d) = turn * (z - z' + 0) + e := by ring
  rw [same]
  refine norm_turn_le (D := 0) slow near ?_ error ?_
  · rw [norm_zero]
  · rwa [add_zero]

/-! ### Convex sets -/

/-- A set by its supporting lines: how far it goes in each direction. -/
def Below (h : ℂ → ℝ) (z : ℂ) : Prop := ∀ u, ‖u‖ = 1 → (z * conj u).re ≤ h u

theorem mul_conj_of_norm (unit : ‖w‖ = 1) : w * conj w = 1 := by
  rw [mul_conj, normSq_eq_norm_sq, unit]
  norm_num

theorem exists_direction (nonzero : z ≠ 0) :
    ∃ w : ℂ, ‖w‖ = 1 ∧ ‖z‖ * w = z ∧ ‖z‖ ^ 2 * w.re ^ 2 = z.re ^ 2 ∧ ‖z‖ ^ 2 * w.im ^ 2 = z.im ^ 2 := by
  have positive : ‖z‖ ≠ 0 := norm_ne_zero_iff.mpr nonzero
  refine ⟨z / (‖z‖ : ℂ), ?_, ?_, ?_, ?_⟩
  · rw [norm_div, norm_real, norm_norm, div_self positive]
  · rw [mul_div_cancel₀ _ (ofReal_ne_zero.mpr positive)]
  · rw [div_ofReal_re, div_pow, mul_div_cancel₀ _ (pow_ne_zero 2 positive)]
  · rw [div_ofReal_im, div_pow, mul_div_cancel₀ _ (pow_ne_zero 2 positive)]

theorem re_le_of_norm (unit : ‖v‖ = 1) (z : ℂ) : (z * conj v).re ≤ ‖z‖ := by
  have norm : ‖z * conj v‖ = ‖z‖ := by rw [norm_mul, norm_conj, unit, mul_one]
  exact norm ▸ re_le_norm (z * conj v)

theorem Below.norm_le (below : Below h z) (bound : ∀ u, ‖u‖ = 1 → h u ≤ K) (nonneg : 0 ≤ K) : ‖z‖ ≤ K := by
  by_cases zero : z = 0
  · rw [zero, norm_zero]
    exact nonneg
  · obtain ⟨w, unit, same, _⟩ := exists_direction zero
    have along : z * conj w = (‖z‖ : ℂ) := by
      calc z * conj w = ‖z‖ * (w * conj w) := by rw [← mul_assoc, same]
        _ = ‖z‖ := by rw [mul_conj_of_norm unit, mul_one]
    have far := (below w unit).trans (bound w unit)
    rwa [along, ofReal_re] at far

/-- A step keeps the set when the lines have room for it, direction by direction. -/
theorem Below.step {d : ℝ} (below : Below h z) (unit : ‖w‖ = 1) (nonneg : 0 ≤ r) (push : |d| ≤ D) (error : ‖e‖ ≤ ε)
    (room : ∀ v, ‖v‖ = 1 → r * (h v + D * |v.re|) + ε ≤ h (w * v)) : Below h (r * w * (z + d) + e) := by
  intro u direction
  -- the line in the direction `u` comes from the one in the direction before the turn
  have turned : w * (conj w * u) = u := by rw [← mul_assoc, mul_conj_of_norm unit, one_mul]
  have before : ‖conj w * u‖ = 1 := by rw [norm_mul, norm_conj, unit, direction, one_mul]
  generalize conj w * u = v at turned before
  have split : (r * w * (z + d) + e) * conj u = r * (z * conj v + d * conj v) * (w * conj w) + e * conj u := by
    rw [← turned, map_mul]
    ring
  have pushed : d * v.re ≤ D * |v.re| := by
    calc d * v.re ≤ |d * v.re| := le_abs_self _
      _ = |d| * |v.re| := abs_mul _ _
      _ ≤ D * |v.re| := mul_le_mul_of_nonneg_right push (abs_nonneg _)
  have real : ((r * w * (z + d) + e) * conj u).re = r * ((z * conj v).re + d * v.re) + (e * conj u).re := by
    rw [split, mul_conj_of_norm unit, mul_one, add_re, re_ofReal_mul, add_re, re_ofReal_mul d, conj_re]
  rw [real]
  calc r * ((z * conj v).re + d * v.re) + (e * conj u).re ≤ r * (h v + D * |v.re|) + ε :=
        add_le_add (mul_le_mul_of_nonneg_left (add_le_add (below v before) pushed) nonneg)
          ((re_le_of_norm direction e).trans error)
    _ ≤ h (w * v) := room v before
    _ = h u := by rw [turned]

/-! ### Two harmonics -/

/-- The distance of the supporting lines, with two harmonics of the direction. -/
noncomputable def wave (A : ℝ) (B C u : ℂ) : ℝ := A + (B * u ^ 2).re + (C * u ^ 4).re

theorem re_mul_pow_le (unit : ‖v‖ = 1) (z : ℂ) (n : ℕ) : |(z * v ^ n).re| ≤ ‖z‖ := by
  have norm : ‖z * v ^ n‖ = ‖z‖ := by rw [norm_mul, norm_pow, unit, one_pow, mul_one]
  exact norm ▸ abs_re_le_norm _

theorem wave_le (unit : ‖v‖ = 1) : wave A B C v ≤ A + ‖B‖ + ‖C‖ :=
  add_le_add (add_le_add le_rfl ((le_abs_self _).trans (re_mul_pow_le unit B 2))) ((le_abs_self _).trans (re_mul_pow_le unit C 4))

theorem wave_nonneg (unit : ‖v‖ = 1) (large : ‖B‖ + ‖C‖ ≤ A) : 0 ≤ wave A B C v := by
  have second := neg_le_of_abs_le (re_mul_pow_le unit B 2)
  have fourth := neg_le_of_abs_le (re_mul_pow_le unit C 4)
  rw [wave]
  linarith

/-- A bound of the first part of a direction by two harmonics, which is exact on the axis. -/
theorem abs_re_le (unit : ‖v‖ = 1) : |v.re| ≤ 27 / 40 + 2 / 5 * (v ^ 2).re - 3 / 40 * (v ^ 4).re := by
  have circle : v.re ^ 2 + v.im ^ 2 = 1 := by
    rw [← sq_norm_sub_sq_re, unit]
    ring
  have second : (v ^ 2).re = 2 * |v.re| ^ 2 - 1 := by
    rw [sq_abs, pow_two, mul_re]
    linarith
  have fourth : (v ^ 4).re = 8 * |v.re| ^ 4 - 8 * |v.re| ^ 2 + 1 := by
    have even : |v.re| ^ 4 = (v.re ^ 2) ^ 2 := by rw [← sq_abs v.re, ← pow_mul]
    have sine : v.im ^ 2 = 1 - v.re ^ 2 := by linarith
    have expand : (v ^ 4).re = (v.re ^ 2 - v.im ^ 2) ^ 2 - 4 * (v.re ^ 2 * v.im ^ 2) := by
      have twice : v ^ 4 = v ^ 2 * v ^ 2 := by ring
      rw [twice, mul_re, pow_two v, mul_re, mul_im]
      ring
    rw [expand, even, sq_abs, sine]
    ring
  have low := abs_nonneg v.re
  have high : |v.re| ≤ 1 := unit ▸ abs_re_le_norm v
  rw [second, fourth]
  generalize |v.re| = s at low high
  have factor : 27 / 40 + 2 / 5 * (2 * s ^ 2 - 1) - 3 / 40 * (8 * s ^ 4 - 8 * s ^ 2 + 1) - s
      = (1 - s) * (1 / 5 - 4 / 5 * s + 3 / 5 * s ^ 2 + 3 / 5 * s ^ 3) := by ring
  have cubic : 0 ≤ 1 / 5 - 4 / 5 * s + 3 / 5 * s ^ 2 + 3 / 5 * s ^ 3 := by
    nlinarith [mul_nonneg low (sq_nonneg (s - 2 / 5)), sq_nonneg (s - 2 / 5)]
  have product := mul_nonneg (sub_nonneg.mpr high) cubic
  linarith

/-- The harmonics of the lines are chosen such that a turn makes up for what the push adds. -/
theorem wave_turn (second : B * (w ^ 2 - q) = ((2 / 5 * (q * D) : ℝ) : ℂ))
    (fourth : C * (w ^ 4 - q) = ((-(3 / 40 * (q * D)) : ℝ) : ℂ)) (v : ℂ) :
    wave A B C (w * v) = A + q * (wave A B C v - A) + q * D * (2 / 5 * (v ^ 2).re - 3 / 40 * (v ^ 4).re) := by
  have two : B * (w * v) ^ 2 = q * (B * v ^ 2) + ((2 / 5 * (q * D) : ℝ) : ℂ) * v ^ 2 := by
    rw [← second]
    ring
  have four : C * (w * v) ^ 4 = q * (C * v ^ 4) + ((-(3 / 40 * (q * D)) : ℝ) : ℂ) * v ^ 4 := by
    rw [← fourth]
    ring
  rw [wave, wave, two, four, add_re, add_re, re_ofReal_mul, re_ofReal_mul, re_ofReal_mul, re_ofReal_mul]
  ring

/-- A factor far from both axes keeps the numbers in a smaller set than a disc. -/
theorem traps_oblique (unit : ‖w‖ = 1) (nonneg : 0 ≤ r) (slow : r ≤ q) (push : 0 ≤ D) (b_pos : 0 < b)
    (far : b ≤ ‖w ^ 2 - q‖) (c_pos : 0 < c) (far' : c ≤ ‖w ^ 4 - q‖)
    (large : 2 / 5 * (q * D) / b + 3 / 40 * (q * D) / c ≤ A) (room : 27 / 40 * (q * D) + ε ≤ A * (1 - q)) :
    Traps (r * w) D ε (A + 2 / 5 * (q * D) / b + 3 / 40 * (q * D) / c) := by
  have qD : 0 ≤ q * D := mul_nonneg (nonneg.trans slow) push
  have second : w ^ 2 - q ≠ 0 := norm_ne_zero_iff.mp (b_pos.trans_le far).ne'
  have fourth : w ^ 4 - q ≠ 0 := norm_ne_zero_iff.mp (c_pos.trans_le far').ne'
  obtain ⟨B, hB⟩ : ∃ B : ℂ, B * (w ^ 2 - q) = ((2 / 5 * (q * D) : ℝ) : ℂ) := ⟨_, div_mul_cancel₀ _ second⟩
  obtain ⟨C, hC⟩ : ∃ C : ℂ, C * (w ^ 4 - q) = ((-(3 / 40 * (q * D)) : ℝ) : ℂ) := ⟨_, div_mul_cancel₀ _ fourth⟩
  have normB : ‖B‖ ≤ 2 / 5 * (q * D) / b := by
    rw [le_div_iff₀ b_pos]
    calc ‖B‖ * b ≤ ‖B‖ * ‖w ^ 2 - q‖ := mul_le_mul_of_nonneg_left far (norm_nonneg B)
      _ = 2 / 5 * (q * D) := by
        rw [← norm_mul, hB, norm_real, Real.norm_of_nonneg]
        linarith
  have normC : ‖C‖ ≤ 3 / 40 * (q * D) / c := by
    rw [le_div_iff₀ c_pos]
    calc ‖C‖ * c ≤ ‖C‖ * ‖w ^ 4 - q‖ := mul_le_mul_of_nonneg_left far' (norm_nonneg C)
      _ = 3 / 40 * (q * D) := by
        rw [← norm_mul, hC, norm_real, norm_neg, Real.norm_of_nonneg]
        linarith
  have positive : ∀ v : ℂ, ‖v‖ = 1 → 0 ≤ wave A B C v := fun v direction => wave_nonneg direction (by linarith)
  refine ⟨{z | Below (wave A B C) z}, ?_, ?_, ?_⟩
  · intro u direction
    rw [zero_mul, zero_re]
    exact positive u direction
  · intro z inside d pushed e error
    refine Below.step inside unit nonneg pushed error fun v direction => ?_
    have shape := mul_le_mul_of_nonneg_left (abs_re_le direction) qD
    have slower : r * (wave A B C v + D * |v.re|) ≤ q * (wave A B C v + D * |v.re|) :=
      mul_le_mul_of_nonneg_right slow (add_nonneg (positive v direction) (mul_nonneg push (abs_nonneg _)))
    rw [wave_turn hB hC]
    linarith
  · intro z inside
    refine Below.norm_le inside (fun u direction => (wave_le direction).trans (by linarith)) ?_
    linarith [norm_nonneg B, norm_nonneg C]

/-! ### How far a direction is from the axes -/

theorem norm_sq_sub (unit : ‖w‖ = 1) (q : ℝ) : ‖w ^ 2 - q‖ ^ 2 = (1 - q) ^ 2 + 4 * q * w.im ^ 2 := by
  have circle : w.re ^ 2 + w.im ^ 2 = 1 := by
    rw [← sq_norm_sub_sq_re, unit]
    ring
  have cosine : w.re ^ 2 = 1 - w.im ^ 2 := by linarith
  rw [Complex.sq_norm, normSq_apply, pow_two w, sub_re, sub_im, mul_re, mul_im, ofReal_re, ofReal_im]
  calc (w.re * w.re - w.im * w.im - q) * (w.re * w.re - w.im * w.im - q) + (w.re * w.im + w.im * w.re - 0) * (w.re * w.im + w.im * w.re - 0)
      = (w.re ^ 2 - w.im ^ 2 - q) ^ 2 + 4 * w.re ^ 2 * w.im ^ 2 := by ring
    _ = (1 - q) ^ 2 + 4 * q * w.im ^ 2 := by
      rw [cosine]
      ring

theorem norm_pow_four_sub (unit : ‖w‖ = 1) (q : ℝ) : ‖w ^ 4 - q‖ ^ 2 = (1 - q) ^ 2 + 16 * q * (w.re * w.im) ^ 2 := by
  have square : ‖w ^ 2‖ = 1 := by rw [norm_pow, unit, one_pow]
  have twice : w ^ 4 = (w ^ 2) ^ 2 := by ring
  rw [twice, norm_sq_sub square, pow_two w, mul_im]
  ring

end Tortuga.Rotations
