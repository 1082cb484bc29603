import Mathlib.Algebra.BigOperators.Group.Finset.Basic
import Mathlib.Algebra.Order.BigOperators.Group.Finset
import Mathlib.Algebra.Order.Ring.Abs
import Mathlib.Algebra.Order.Ring.Int
import Mathlib.Data.Nat.Notation
import Mathlib.Tactic.Linarith

/-!
The integer types for samples of some bits (`adctypes.h`). What does not fit a type is taken modulo
its size, also in the result of an operator, which has the type `int` at least.
-/
namespace Tortuga.AdcTypes
set_option linter.unusedSimpArgs false

/-- The width of the type behind `adc<bits>::SIGNED`. There is none for more than 64 bits. -/
def machine (bits : ℕ) : ℕ :=
  if bits ≤ 8 then 8
  else if bits ≤ 16 then 16
  else if bits ≤ 32 then 32
  else 64

/-- `adc<bits>::SIGNED_MAX`. -/
def signedMax (bits : ℕ) : ℤ := 2 ^ (bits - 1) - 1

/-- `adc<bits>::SIGNED_MIN`. -/
def signedMin (bits : ℕ) : ℤ := -2 ^ (bits - 1)

/-- A number of so many bits. -/
def Fits (bits : ℕ) (x : ℤ) : Prop := signedMin bits ≤ x ∧ x ≤ signedMax bits

instance (bits : ℕ) (x : ℤ) : Decidable (Fits bits x) := inferInstanceAs (Decidable (_ ∧ _))

/-- A number that is stored as `adc<bits>::SIGNED`. -/
def signed (bits : ℕ) (x : ℤ) : ℤ := x.bmod (2 ^ machine bits)

/-- The result of an operator on numbers of the type `adc<bits>::SIGNED`. -/
def promoted (bits : ℕ) (x : ℤ) : ℤ := x.bmod (2 ^ max 32 (machine bits))

section
variable {bits wide : ℕ} {x y : ℤ}

theorem machine_pos (bits : ℕ) : 0 < machine bits := by
  rw [machine]
  split_ifs <;> omega

theorem le_machine (fits : bits ≤ 64) : bits ≤ machine bits := by
  rw [machine]
  split_ifs <;> omega

theorem machine_mono (le : bits ≤ wide) : machine bits ≤ machine wide := by
  simp only [machine]
  split_ifs <;> omega

theorem bmod_of_fits {width : ℕ} (positive : 0 < width) (low : -2 ^ (width - 1) ≤ x) (high : x < 2 ^ (width - 1)) :
    x.bmod (2 ^ width) = x := by
  have half : ((2 ^ width : ℕ) : ℤ) = 2 * 2 ^ (width - 1) := by
    rw [Nat.cast_pow, Nat.cast_ofNat, ← pow_succ']
    congr 1
    omega
  exact Int.bmod_eq_of_le_mul_two (by omega) (by omega)

/-- A number that fits is stored as it is. -/
theorem signed_of_fits (low : -2 ^ (machine bits - 1) ≤ x) (high : x < 2 ^ (machine bits - 1)) : signed bits x = x :=
  bmod_of_fits (machine_pos bits) low high

theorem promoted_of_fits (low : -2 ^ (max 32 (machine bits) - 1) ≤ x) (high : x < 2 ^ (max 32 (machine bits) - 1)) :
    promoted bits x = x := bmod_of_fits (by omega) low high

theorem Fits.of_abs {bound : ℤ} (within : |x| ≤ bound) (room : bound ≤ signedMax bits) : Fits bits x := by
  obtain ⟨low, high⟩ := abs_le.mp within
  rw [signedMax] at room
  refine ⟨?_, ?_⟩
  · rw [signedMin]
    omega
  · rw [signedMax]
    omega

theorem fits_zero (bits : ℕ) : Fits bits 0 := by
  have positive : (1 : ℤ) ≤ 2 ^ (bits - 1) := one_le_pow₀ (by norm_num)
  exact .of_abs abs_zero.le (sub_nonneg.mpr positive)

theorem Fits.within {width : ℕ} (fits : Fits bits x) (positive : 0 < bits) (le : bits ≤ width) :
    -2 ^ (width - 1) ≤ x ∧ x < 2 ^ (width - 1) := by
  have wider : (2 : ℤ) ^ (bits - 1) ≤ 2 ^ (width - 1) := pow_le_pow_right₀ (by norm_num) (by omega)
  obtain ⟨low, high⟩ := fits
  rw [signedMin] at low
  rw [signedMax] at high
  constructor <;> omega

theorem Fits.signed (fits : Fits bits x) (positive : 0 < bits) (le : bits ≤ 64) : signed bits x = x :=
  signed_of_fits (fits.within positive (le_machine le)).1 (fits.within positive (le_machine le)).2

theorem Fits.promoted (fits : Fits bits x) (positive : 0 < bits) (le : bits ≤ 64) : promoted bits x = x := by
  have within := fits.within positive ((le_machine le).trans (le_max_right 32 _))
  exact promoted_of_fits within.1 within.2

@[simp] theorem signed_signed : signed bits (signed bits x) = signed bits x := Int.bmod_bmod

/-- An operator loses nothing that its narrower result would have kept. -/
theorem signed_promoted (le : bits ≤ wide) : signed bits (promoted wide x) = signed bits x := by
  refine Int.bmod_bmod_of_dvd (Nat.pow_dvd_pow 2 ?_)
  exact (machine_mono le).trans (le_max_right _ _)

@[simp] theorem signed_add_signed : signed bits (x + signed bits y) = signed bits (x + y) := Int.add_bmod_bmod
@[simp] theorem signed_signed_add : signed bits (signed bits x + y) = signed bits (x + y) := Int.bmod_add_bmod
@[simp] theorem signed_sub_signed : signed bits (x - signed bits y) = signed bits (x - y) := Int.sub_bmod_bmod
@[simp] theorem signed_signed_sub : signed bits (signed bits x - y) = signed bits (x - y) := Int.bmod_sub_bmod
@[simp] theorem signed_zero : signed bits 0 = 0 := Int.zero_bmod

/-- What has been left out of each term is left out of the sum. -/
theorem signed_sum (s : Finset ℕ) (f : ℕ → ℤ) : signed bits (∑ m ∈ s, signed bits (f m)) = signed bits (∑ m ∈ s, f m) := by
  induction s using Finset.induction_on with
  | empty => rfl
  | insert m s new ih =>
    rw [Finset.sum_insert new, Finset.sum_insert new, signed_signed_add, ← signed_add_signed, ih, signed_add_signed]

/-! ### Products -/

theorem Fits.abs_le_two_pow (fits : Fits bits x) : |x| ≤ 2 ^ (bits - 1) := by
  obtain ⟨low, high⟩ := fits
  rw [signedMin] at low
  rw [signedMax] at high
  exact abs_le.mpr ⟨low, by linarith⟩

theorem abs_mul_le_of_fits (positive : 0 < bits) (first : Fits bits x) (second : Fits bits y) : |x * y| ≤ 2 ^ (2 * bits - 2) := by
  have twice : 2 * bits - 2 = (bits - 1) + (bits - 1) := by omega
  rw [abs_mul, twice, pow_add]
  exact mul_le_mul first.abs_le_two_pow second.abs_le_two_pow (abs_nonneg y) (by positivity)

theorem Fits.mul (positive : 0 < bits) (first : Fits bits x) (second : Fits bits y) : Fits (2 * bits) (x * y) := by
  have product : (1 : ℤ) ≤ 2 ^ (2 * bits - 2) := one_le_pow₀ (by norm_num)
  have exponent : 2 * bits - 1 = 2 * bits - 2 + 1 := by omega
  refine .of_abs (abs_mul_le_of_fits positive first second) ?_
  rw [signedMax, exponent, pow_succ]
  linarith

theorem abs_sum_mul_le {f g : ℕ → ℤ} {s : Finset ℕ} (positive : 0 < bits) (first : ∀ m ∈ s, Fits bits (f m))
    (second : ∀ m ∈ s, Fits bits (g m)) : |∑ m ∈ s, f m * g m| ≤ s.card * 2 ^ (2 * bits - 2) := by
  calc |∑ m ∈ s, f m * g m| ≤ ∑ m ∈ s, |f m * g m| := Finset.abs_sum_le_sum_abs _ _
    _ ≤ ∑ _m ∈ s, 2 ^ (2 * bits - 2) := Finset.sum_le_sum fun m there => abs_mul_le_of_fits positive (first m there) (second m there)
    _ = s.card * 2 ^ (2 * bits - 2) := by rw [Finset.sum_const, nsmul_eq_mul]

end

end Tortuga.AdcTypes
