import Mathlib.Algebra.Ring.Nat
import Mathlib.Data.List.TakeWhile
import Mathlib.Tactic.Ring

/-!
Texts of characters as the C library reads and prints them: `fgets` takes a line out of a file, `strtoul` reads the number that a
string begins with in the base sixteen, and a number is printed with a fixed count of digits.
-/
namespace Tortuga.CStrings

section
variable {k n d m : ℕ} {s rest : List Char}

/-- Up to `n` characters of a file, or through the end of the first line, and what is left of the file. -/
def fgets : ℕ → List Char → List Char × List Char
  | 0, file => ([], file)
  | _, [] => ([], [])
  | n + 1, c :: file => if c = '\n' then ([c], file) else (c :: (fgets n file).1, (fgets n file).2)

theorem fgets_length (n : ℕ) (file : List Char) : (fgets n file).1.length + (fgets n file).2.length = file.length := by
  induction n generalizing file with
  | zero => rw [fgets, List.length_nil, Nat.zero_add]
  | succ n ih =>
    cases file with
    | nil => rfl
    | cons c file =>
      rw [fgets]
      split_ifs
      · rw [List.length_singleton, List.length_cons, Nat.add_comm]
      · rw [List.length_cons, List.length_cons, Nat.add_right_comm, ih]

/-- All that is taken out of a file by one call after the other, until a call finds nothing. -/
def lines (n : ℕ) (file : List Char) : List (List Char) :=
  if (fgets n file).1 = [] then [] else (fgets n file).1 :: lines n (fgets n file).2
termination_by file.length
decreasing_by
  rename_i taken
  have all := fgets_length n file
  have some := List.length_pos_iff.mpr taken
  omega

/-- A line that is short enough is taken as it is. -/
theorem fgets_line (plain : '\n' ∉ s) (short : s.length < n) : fgets n (s ++ '\n' :: rest) = (s ++ ['\n'], rest) := by
  induction s generalizing n with
  | nil =>
    obtain ⟨n, rfl⟩ := Nat.exists_eq_succ_of_ne_zero (Nat.ne_of_gt short)
    rw [List.nil_append, fgets, if_pos rfl, List.nil_append]
  | cons c s ih =>
    obtain ⟨n, rfl⟩ := Nat.exists_eq_succ_of_ne_zero (Nat.ne_of_gt (Nat.zero_lt_of_lt short))
    rw [List.mem_cons, not_or] at plain
    rw [List.cons_append, fgets, if_neg (Ne.symm plain.1), ih plain.2 (Nat.lt_of_succ_lt_succ short), List.cons_append]

theorem lines_line (plain : '\n' ∉ s) (short : s.length < n) : lines n (s ++ '\n' :: rest) = (s ++ ['\n']) :: lines n rest := by
  rw [lines, fgets_line plain short, if_neg (List.append_ne_nil_of_right_ne_nil _ (List.cons_ne_nil _ _))]

/-! ### Digits -/

/-- The value of a digit of the base sixteen. -/
def digit (c : Char) : Option ℕ :=
  if '0' ≤ c ∧ c ≤ '9' then some (c.toNat - 48)
  else if 'A' ≤ c ∧ c ≤ 'F' then some (c.toNat - 55)
  else if 'a' ≤ c ∧ c ≤ 'f' then some (c.toNat - 87)
  else none

/-- The number goes on as long as there are digits. -/
def digits : ℕ → List Char → ℕ
  | n, [] => n
  | n, c :: s =>
    match digit c with
    | some d => digits (16 * n + d) s
    | none => n

/-- The characters before the first one that is zero. -/
def cString (s : List Char) : List Char := s.takeWhile (· ≠ '\x00')

def isSpace (c : Char) : Bool := c = ' ' ∨ c = '\t' ∨ c = '\n' ∨ c = '\x0b' ∨ c = '\x0c' ∨ c = '\r'

/-- What may stand before the digits. -/
def withoutBase : List Char → List Char
  | '0' :: 'x' :: s => s
  | '0' :: 'X' :: s => s
  | s => s

/-- `strtoul` with the base sixteen, for numbers of at most 64 bits. -/
def strtoul (s : List Char) : ℕ :=
  match s.dropWhile isSpace with
  | '-' :: s => (2 ^ 64 - digits 0 (withoutBase s)) % 2 ^ 64
  | '+' :: s => digits 0 (withoutBase s)
  | s => digits 0 (withoutBase s)

def hexDigit (d : ℕ) : Char := Char.ofNat (if d < 10 then 48 + d else 55 + d)

/-- A number printed with `k` digits, as with `%0kX`. -/
def hex : ℕ → ℕ → List Char
  | 0, _ => []
  | k + 1, n => hex k (n / 16) ++ [hexDigit (n % 16)]

theorem hexDigit_cases (small : d < 16) : digit (hexDigit d) = some d ∧
    (isSpace (hexDigit d) = false ∧ hexDigit d ≠ '-' ∧ hexDigit d ≠ '+' ∧ hexDigit d ≠ 'x' ∧ hexDigit d ≠ 'X') ∧
    hexDigit d ≠ '\x00' ∧ hexDigit d ≠ '\n' := by
  revert d
  decide

@[simp] theorem hex_length (k n : ℕ) : (hex k n).length = k := by
  induction k generalizing n with
  | zero => rfl
  | succ k ih => rw [hex, List.length_append, ih, List.length_singleton]

theorem mem_hex {c : Char} (among : c ∈ hex k n) : ∃ d < 16, c = hexDigit d := by
  induction k generalizing n with
  | zero => contradiction
  | succ k ih =>
    rcases List.mem_append.mp among with earlier | last
    · exact ih earlier
    · exact ⟨n % 16, Nat.mod_lt _ (by decide), List.mem_singleton.mp last⟩

theorem digits_hex (k n m : ℕ) (s : List Char) : digits m (hex k n ++ s) = digits (16 ^ k * m + n % 16 ^ k) s := by
  induction k generalizing n m s with
  | zero => simp [hex, Nat.mod_one]
  | succ k ih =>
    rw [hex, List.append_assoc, ih, List.singleton_append, digits, (hexDigit_cases (Nat.mod_lt n (by decide))).1]
    change digits (16 * (16 ^ k * m + n / 16 % 16 ^ k) + n % 16) s = _
    congr 1
    rw [Nat.pow_succ', Nat.mod_mul]
    ring

/-- A string of digits that were printed is read as digits. -/
theorem strtoul_digits (printed : ∀ c ∈ s, ∃ d < 16, c = hexDigit d) : strtoul s = digits 0 s := by
  cases s with
  | nil => rfl
  | cons c s =>
    obtain ⟨d, small, rfl⟩ := printed c List.mem_cons_self
    obtain ⟨-, ⟨space, minus, plus, -, -⟩, -⟩ := hexDigit_cases small
    have base : withoutBase (hexDigit d :: s) = hexDigit d :: s := by
      rw [withoutBase.eq_3]
      · intro rest same
        obtain rfl := (List.cons.inj same).2
        obtain ⟨e, little, same⟩ := printed 'x' (List.mem_cons_of_mem _ List.mem_cons_self)
        exact (hexDigit_cases little).2.1.2.2.2.1 same.symm
      · intro rest same
        obtain rfl := (List.cons.inj same).2
        obtain ⟨e, little, same⟩ := printed 'X' (List.mem_cons_of_mem _ List.mem_cons_self)
        exact (hexDigit_cases little).2.1.2.2.2.2 same.symm
    rw [strtoul, List.dropWhile_cons_of_neg (by rw [space]; exact Bool.false_ne_true)]
    split
    · next same => exact absurd (List.cons.inj same).1 minus
    · next same => exact absurd (List.cons.inj same).1 plus
    · rw [base]

theorem cString_append (plain : '\x00' ∉ s) : cString (s ++ '\x00' :: rest) = s := by
  have all : ∀ c ∈ s, decide (c ≠ '\x00') = true := fun c among => decide_eq_true fun zero => plain (zero ▸ among)
  rw [cString, List.takeWhile_append_of_pos all, List.takeWhile_cons_of_neg (by simp), List.append_nil]

theorem cString_plain (plain : '\x00' ∉ s) : cString s = s :=
  List.takeWhile_eq_self_iff.mpr fun _ among => decide_eq_true fun zero => plain (zero ▸ among)

/-- A number of two digits. -/
theorem strtoul_hex (k n : ℕ) : strtoul (hex k n) = n % 16 ^ k := by
  have value := digits_hex k n 0 []
  rw [List.append_nil] at value
  rw [strtoul_digits fun c among => mem_hex among, value, Nat.mul_zero, Nat.zero_add]
  rfl

theorem hex_plain {c : Char} (odd : ∀ d < 16, hexDigit d ≠ c) : c ∉ hex k n := by
  intro among
  obtain ⟨d, small, same⟩ := mem_hex among
  exact odd d small same.symm

end

end Tortuga.CStrings
