import Mathlib.Algebra.Group.Nat.Defs
import Tortuga.BusCodes

/-!
Numbers as bytes, the least significant first.
-/
namespace Tortuga.LittleEndian
open Tortuga.BusCodes

/-- The first `w` bytes of a number. -/
def bytes : ℕ → ℕ → List Byte
  | 0, _ => []
  | w + 1, n => BitVec.ofNat 8 n :: bytes w (n / 256)

def number : List Byte → ℕ
  | [] => 0
  | b :: rest => b.toNat + 256 * number rest

/-- The `w` bytes at an offset, as a number. -/
def field (offset w : ℕ) (l : List Byte) : ℕ := number ((l.drop offset).take w)

variable {w n offset : ℕ} {l before rest : List Byte}

@[simp] theorem length_bytes (w n : ℕ) : (bytes w n).length = w := by
  induction w generalizing n with
  | zero => rfl
  | succ w ih => simp [bytes, ih]

theorem number_bytes (w n : ℕ) : number (bytes w n) = n % 256 ^ w := by
  induction w generalizing n with
  | zero => simp [bytes, number, Nat.mod_one]
  | succ w ih =>
    have first : (BitVec.ofNat 8 n).toNat = n % 256 := BitVec.toNat_ofNat ..
    rw [bytes, number, ih, first, Nat.pow_succ', Nat.mod_mul]

/-- The field of a number of `v` bits is the number. -/
theorem ofNat_number_bytes {v : ℕ} (fits : 2 ^ v = 256 ^ w) (x : BitVec v) : BitVec.ofNat v (number (bytes w x.toNat)) = x := by
  apply BitVec.eq_of_toNat_eq
  rw [BitVec.toNat_ofNat, number_bytes, ← fits, Nat.mod_mod, Nat.mod_eq_of_lt x.isLt]

/-- A field that comes first. -/
theorem field_zero (w n : ℕ) (rest : List Byte) : field 0 w (bytes w n ++ rest) = number (bytes w n) := by
  rw [field, List.drop_zero, List.take_left' (length_bytes w n)]

/-- A field that comes later. -/
theorem field_append (w : ℕ) (before rest : List Byte) (le : before.length ≤ offset) :
    field offset w (before ++ rest) = field (offset - before.length) w rest := by
  rw [field, field, List.drop_append, List.drop_eq_nil_of_le le, List.nil_append]

end Tortuga.LittleEndian
