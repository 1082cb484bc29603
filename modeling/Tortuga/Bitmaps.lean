import Mathlib.Data.Nat.Notation
import Mathlib.Logic.Function.Basic

/-!
Flags kept in the bits of an array of words.
-/
namespace Tortuga.Bitmaps

section
variable {w : ℕ}

/-- The flag number `j`. -/
def flag (v : ℕ → BitVec w) (j : ℕ) : Bool := (v (j / w)).getLsbD (j % w)

/-- The word with bit `k`. -/
def bit (w k : ℕ) : BitVec w := 1#w <<< k

theorem bit_getLsbD {k l : ℕ} (inside : k < w) : (bit w k).getLsbD l = decide (l = k) := by
  rw [bit, BitVec.getLsbD_shiftLeft, BitVec.getLsbD_one]
  by_cases same : l = k
  · simp [same, inside]
    omega
  · simp [same]
    omega

/-- The bit of a word is set. -/
theorem and_bit_ne_zero (word : BitVec w) {k : ℕ} (inside : k < w) : word &&& bit w k ≠ 0#w ↔ word.getLsbD k = true := by
  constructor
  · intro nonzero
    by_contra clear
    refine nonzero (BitVec.eq_of_getLsbD_eq fun l _ => ?_)
    rw [BitVec.getLsbD_and, bit_getLsbD inside, BitVec.getLsbD_zero]
    by_cases same : l = k
    · subst same
      simpa using clear
    · simp [same]
  · intro set zero
    have here := congrArg (fun x => x.getLsbD k) zero
    simp [bit_getLsbD inside, set] at here

theorem clear_getLsbD (word : BitVec w) {k l : ℕ} (inside : k < w) (below : l < w) :
    (word &&& ~~~bit w k).getLsbD l = (word.getLsbD l && l != k) := by
  rw [BitVec.getLsbD_and, BitVec.getLsbD_not, bit_getLsbD inside]
  by_cases same : l = k
  · simp [same]
  · simp [same, below]

theorem set_getLsbD (word : BitVec w) {k l : ℕ} (inside : k < w) :
    (word ||| bit w k).getLsbD l = (word.getLsbD l || l == k) := by
  rw [BitVec.getLsbD_or, bit_getLsbD inside]
  by_cases same : l = k <;> simp [same]

theorem bit_toNat {k : ℕ} (inside : k < w) : (bit w k).toNat = 1 <<< k := by
  have small : 2 ^ k < 2 ^ w := Nat.pow_lt_pow_right (by decide) inside
  have one : 1 % 2 ^ w = 1 := Nat.mod_eq_of_lt (Nat.one_lt_two_pow (by omega))
  rw [bit, BitVec.toNat_shiftLeft, BitVec.toNat_ofNat, one, Nat.one_shiftLeft, Nat.mod_eq_of_lt small]

/-- The bits below `k`. -/
theorem low_getLsbD {k l : ℕ} (inside : k < w) : (bit w k - 1#w).getLsbD l = decide (l < k) := by
  have one : (1#w).toNat = 1 := by
    rw [BitVec.toNat_ofNat, Nat.mod_eq_of_lt (Nat.one_lt_two_pow (by omega))]
  have le : 1#w ≤ bit w k := by
    rw [BitVec.le_def, one, bit_toNat inside, Nat.one_shiftLeft]
    exact Nat.one_le_two_pow
  rw [BitVec.getLsbD, BitVec.toNat_sub_of_le le, one, bit_toNat inside, Nat.one_shiftLeft, Nat.testBit_two_pow_sub_one]

/-- A word has no bit from `k` on. -/
theorem and_high_eq_zero (word : BitVec w) {k : ℕ} (inside : k < w) :
    word &&& ~~~(bit w k - 1#w) = 0#w ↔ ∀ l, k ≤ l → l < w → word.getLsbD l = false := by
  constructor
  · intro zero l above below
    have here := congrArg (fun x => x.getLsbD l) zero
    simp only [BitVec.getLsbD_and, BitVec.getLsbD_not, low_getLsbD inside, BitVec.getLsbD_zero] at here
    simpa [below, Nat.not_lt.mpr above] using here
  · intro clear
    refine BitVec.eq_of_getLsbD_eq fun l below => ?_
    rw [BitVec.getLsbD_and, BitVec.getLsbD_not, low_getLsbD inside, BitVec.getLsbD_zero]
    by_cases above : k ≤ l
    · simp [clear l above below]
    · simp [Nat.lt_of_not_le above]

/-! ### Flags of an array -/

variable {v : ℕ → BitVec w} {i k j : ℕ}

theorem flag_at (inside : k < w) : flag v (w * i + k) = (v i).getLsbD k := by
  have pos : 0 < w := by omega
  rw [flag, Nat.mul_add_div pos, Nat.div_eq_of_lt inside, Nat.mul_add_mod, Nat.mod_eq_of_lt inside, Nat.add_zero]

/-- The test of a flag. -/
theorem flag_test (inside : k < w) : v i &&& bit w k ≠ 0#w ↔ flag v (w * i + k) = true := by
  rw [and_bit_ne_zero _ inside, flag_at inside]

/-- An update of a word by a change of one bit. -/
theorem flag_update {word : BitVec w} {f : Bool → Bool} (inside : k < w)
    (bits : ∀ l, l < w → word.getLsbD l = if l = k then f ((v i).getLsbD l) else (v i).getLsbD l) :
    flag (Function.update v i word) j = if j = w * i + k then f (flag v j) else flag v j := by
  have pos : 0 < w := by omega
  have below := Nat.mod_lt j pos
  have whole := Nat.div_add_mod j w
  simp only [flag, Function.update_apply]
  by_cases here : j / w = i
  · rw [if_pos here, bits _ below, here]
    by_cases same : j % w = k
    · rw [if_pos same, if_pos (by rw [← whole, here, same])]
    · rw [if_neg same, if_neg]
      rintro rfl
      exact same (by rw [Nat.mul_add_mod, Nat.mod_eq_of_lt inside])
  · rw [if_neg here, if_neg]
    rintro rfl
    exact here (by rw [Nat.mul_add_div pos, Nat.div_eq_of_lt inside, Nat.add_zero])

/-- One flag is cleared. -/
theorem flag_clear (inside : k < w) : flag (Function.update v i (v i &&& ~~~bit w k)) j =
    if j = w * i + k then false else flag v j := by
  refine flag_update (f := fun _ => false) inside fun l below => ?_
  rw [clear_getLsbD _ inside below]
  by_cases same : l = k <;> simp [same]

/-- One flag is set. -/
theorem flag_set (inside : k < w) : flag (Function.update v i (v i ||| bit w k)) j =
    if j = w * i + k then true else flag v j := by
  refine flag_update (f := fun _ => true) inside fun l _ => ?_
  rw [set_getLsbD _ inside]
  by_cases same : l = k <;> simp [same]

/-- No flag of the word `i` is set from its bit `k` on. -/
theorem flag_none (inside : k < w) : v i &&& ~~~(bit w k - 1#w) = 0#w ↔
    ∀ j, w * i + k ≤ j → j < w * (i + 1) → flag v j = false := by
  rw [and_high_eq_zero _ inside]
  constructor
  · intro clear j above below
    obtain ⟨l, rfl⟩ : ∃ l, j = w * i + l := ⟨j - w * i, by omega⟩
    rw [Nat.mul_succ] at below
    rw [flag_at (by omega)]
    exact clear l (by omega) (by omega)
  · intro clear l above below
    rw [← flag_at below]
    exact clear _ (by omega) (by rw [Nat.mul_succ]; omega)

end

end Tortuga.Bitmaps
