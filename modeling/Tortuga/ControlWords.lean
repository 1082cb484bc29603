import Mathlib.Algebra.Ring.Nat
import Mathlib.Data.Nat.Bitwise
import Mathlib.Tactic.Linarith
import Mathlib.Tactic.Ring

/-!
Flags in a word, the first one lowest, with a bit that is set where they end: below them while a word is filled from above, and above them
while it is emptied from below.
-/
namespace Tortuga.ControlWords

variable {w : ℕ} {f : Bool} {flags more : List Bool}

def bits : List Bool → ℕ
  | [] => 0
  | f :: flags => f.toNat + 2 * bits flags

/-- The flags that are left in a word. -/
def word : List Bool → ℕ
  | [] => 1
  | f :: flags => f.toNat + 2 * word flags

/-- A word of `w` flags, of which some have been put in. -/
def filling (w : ℕ) (flags : List Bool) : ℕ := 2 ^ (w - flags.length) * (1 + 2 * bits flags)

/-- The flags, and none set up to the end of the word. -/
def padded (w : ℕ) (flags : List Bool) : List Bool := flags ++ .replicate (w - flags.length) false

theorem word_eq (flags : List Bool) : word flags = bits flags + 2 ^ flags.length := by
  induction flags with
  | nil => rfl
  | cons f flags ih =>
    rw [word, bits, ih, List.length_cons, pow_succ]
    ring

theorem bits_lt (flags : List Bool) : bits flags < 2 ^ flags.length := by
  induction flags with
  | nil => exact Nat.one_pos
  | cons f flags ih =>
    have bit := Bool.toNat_le f
    rw [bits, List.length_cons, pow_succ]
    omega

theorem bits_append (flags more : List Bool) : bits (flags ++ more) = bits flags + 2 ^ flags.length * bits more := by
  induction flags with
  | nil => simp [bits]
  | cons f flags ih =>
    rw [List.cons_append, bits, bits, ih, List.length_cons, pow_succ]
    ring

theorem bits_replicate (n : ℕ) : bits (.replicate n false) = 0 := by
  induction n with
  | zero => rfl
  | succ n ih => rw [List.replicate_succ, bits, ih, Bool.toNat_false]

/-! ### Filling a word -/

theorem filling_nil (w : ℕ) : filling w [] = 2 ^ w := by simp [filling, bits]

theorem or_top {b : ℕ} (small : b < 2 ^ w) : b ||| 2 ^ w = 2 ^ w + b := by
  have whole := Nat.two_pow_add_eq_or_of_lt small 1
  rw [mul_one] at whole
  rw [whole, Nat.lor_comm]

theorem half_odd (b : ℕ) : (1 + 2 * b) / 2 = b := by omega

/-- A flag is put into a word that is not full. -/
theorem filling_snoc (flags : List Bool) (room : flags.length < w) (f : Bool) :
    (if f then (filling w flags >>> 1) ||| 2 ^ w else filling w flags >>> 1) = filling w (flags ++ [f]) := by
  obtain ⟨k, rfl⟩ := Nat.exists_eq_add_of_lt room
  have left : flags.length + k + 1 - flags.length = k + 1 := by omega
  have later : flags.length + k + 1 - (flags.length + 1) = k := by omega
  have half : filling (flags.length + k + 1) flags >>> 1 = 2 ^ k * (1 + 2 * bits flags) := by
    rw [filling, left, Nat.shiftRight_eq_div_pow, pow_succ, pow_one, mul_assoc, mul_left_comm, Nat.mul_div_cancel_left _ two_pos]
  have new : bits (flags ++ [f]) = bits flags + 2 ^ flags.length * f.toNat := by rw [bits_append, bits, bits, mul_zero, add_zero]
  rw [half, filling, List.length_append, List.length_singleton, later, new]
  cases f with
  | false => simp
  | true =>
    have small : 2 ^ k * (1 + 2 * bits flags) < 2 ^ (flags.length + k + 1) := by
      have bound := bits_lt flags
      calc 2 ^ k * (1 + 2 * bits flags) < 2 ^ k * (2 * 2 ^ flags.length) := Nat.mul_lt_mul_of_pos_left (by omega) (by positivity)
        _ = 2 ^ (flags.length + k + 1) := by ring
    rw [if_pos rfl, or_top small, Bool.toNat_true]
    ring

/-- The end of the flags is seen at the bottom of a word that is full. -/
theorem filling_full (fits : flags.length ≤ w) : filling w flags &&& 1 = 1 ↔ flags.length = w := by
  rw [Nat.and_one_is_mod, filling]
  rcases Nat.lt_or_eq_of_le fits with room | full
  · obtain ⟨k, rfl⟩ := Nat.exists_eq_add_of_lt room
    rw [show flags.length + k + 1 - flags.length = k + 1 by omega, pow_succ, mul_assoc, mul_left_comm, Nat.mul_mod_right]
    omega
  · rw [full, Nat.sub_self, pow_zero, one_mul]
    omega

/-- The end goes from below the flags to the top of the word. -/
theorem word_padded (fits : flags.length ≤ w) : ((1 + 2 * bits flags) >>> 1) ||| 2 ^ w = word (padded w flags) := by
  have small : bits flags < 2 ^ w := (bits_lt flags).trans_le (Nat.pow_le_pow_right two_pos fits)
  have whole : (padded w flags).length = w := by
    rw [padded, List.length_append, List.length_replicate]
    omega
  rw [Nat.shiftRight_eq_div_pow, pow_one, half_odd, or_top small, word_eq, whole, padded, bits_append, bits_replicate,
    mul_zero, add_zero, Nat.add_comm]

/-! ### Emptying a word -/

theorem word_pos (flags : List Bool) : 0 < word flags := by
  rw [word_eq]
  positivity

theorem word_lt (flags : List Bool) : word flags < 2 ^ (flags.length + 1) := by
  have small := bits_lt flags
  rw [word_eq, pow_succ]
  omega

theorem word_one : word flags = 1 ↔ flags = [] := by
  cases flags with
  | nil => exact ⟨fun _ => rfl, fun _ => rfl⟩
  | cons f flags =>
    have more := word_pos flags
    rw [word]
    exact ⟨fun one => by omega, fun none => absurd none (List.cons_ne_nil f flags)⟩

theorem word_bit (f : Bool) (flags : List Bool) : word (f :: flags) &&& 1 = f.toNat := by
  have bit := Bool.toNat_le f
  rw [Nat.and_one_is_mod, word]
  omega

theorem word_drop {k : ℕ} (some : k ≤ flags.length) : word flags >>> k = word (flags.drop k) := by
  induction k generalizing flags with
  | zero => rfl
  | succ k ih =>
    cases flags with
    | nil => contradiction
    | cons f flags =>
      have bit := Bool.toNat_le f
      have half : word (f :: flags) >>> 1 = word flags := by
        rw [Nat.shiftRight_eq_div_pow, pow_one, word]
        omega
      rw [Nat.add_comm, Nat.shiftRight_add, half, ih (Nat.le_of_succ_le_succ some), Nat.add_comm, List.drop_succ_cons]

end Tortuga.ControlWords
