import Mathlib.Algebra.BigOperators.Intervals
import Mathlib.Data.Fin.Basic

/-!
The last terms of a sequence: their sum, and a ring that holds them.
-/
namespace Tortuga.SlidingWindows

variable {M : Type} [AddCommGroup M] {f : ℕ → M} {N n : ℕ}

/-- The sum of the last `N` of `n` terms. -/
def windowSum (f : ℕ → M) (N n : ℕ) : M := ∑ m ∈ Finset.Ico (n - N) n, f m

/-- The term that leaves the window when the next one comes. -/
def leaving (f : ℕ → M) (N n : ℕ) : M := if N ≤ n then f (n - N) else 0

@[simp] theorem windowSum_zero : windowSum f N 0 = 0 := by
  rw [windowSum, Nat.zero_sub, Finset.Ico_self, Finset.sum_empty]

/-- One term comes and one leaves. -/
theorem windowSum_succ (f : ℕ → M) (N n : ℕ) : windowSum f N (n + 1) = windowSum f N n - leaving f N n + f n := by
  have last : windowSum f N n + f n = ∑ m ∈ Finset.Ico (n - N) (n + 1), f m := by
    rw [windowSum, Finset.sum_Ico_succ_top (Nat.sub_le n N)]
  by_cases full : N ≤ n
  · have next : n + 1 - N = n - N + 1 := by omega
    have first := Finset.sum_eq_sum_Ico_succ_bot (show n - N < n + 1 by omega) f
    rw [leaving, if_pos full, sub_add_eq_add_sub, last, first, windowSum, next, add_sub_cancel_left]
  · have start : n + 1 - N = n - N := by omega
    rw [leaving, if_neg full, sub_zero, last, windowSum, start]

/-- Terms that are less than a round apart have slots of their own. -/
theorem ofNat_ne {a b : ℕ} [NeZero N] (less : a < b) (near : b < a + N) : Fin.ofNat N b ≠ Fin.ofNat N a := by
  intro same
  have equal : b % N = a % N := congrArg Fin.val same
  have apart := Nat.dvd_of_mod_eq_zero (Nat.sub_mod_eq_zero_of_mod_eq equal)
  have short := Nat.le_of_dvd (by omega) apart
  omega

theorem ofNat_add_self (N m : ℕ) [NeZero N] : Fin.ofNat N (m + N) = Fin.ofNat N m := by
  apply Fin.ext
  rw [Fin.val_ofNat, Fin.val_ofNat, Nat.add_mod_right]

section
variable [NeZero N] {slots : Fin N → M}

/-- Each slot of the ring holds the term that leaves when its turn comes. -/
def Holds (slots : Fin N → M) (f : ℕ → M) (n : ℕ) : Prop :=
  ∀ m, n ≤ m → m < n + N → slots (Fin.ofNat N m) = leaving f N m

theorem holds_zero (f : ℕ → M) : Holds (fun _ : Fin N => 0) f 0 := by
  intro m _ below
  rw [leaving, if_neg (by omega)]

theorem Holds.next (holds : Holds slots f n) : slots (Fin.ofNat N n) = leaving f N n :=
  holds n le_rfl (Nat.lt_add_of_pos_right (NeZero.pos N))

/-- The new term takes the place of the one that leaves. -/
theorem Holds.succ (holds : Holds slots f n) : Holds (Function.update slots (Fin.ofNat N n) (f n)) f (n + 1) := by
  intro m later below
  by_cases last : m = n + N
  · rw [last, ofNat_add_self, Function.update_self, leaving, if_pos (Nat.le_add_left N n), Nat.add_sub_cancel]
  · rw [Function.update_of_ne (ofNat_ne (by omega) (by omega))]
    exact holds m (by omega) (by omega)

/-- The ring keeps the last terms. -/
def Keeps (slots : Fin N → M) (f : ℕ → M) (n : ℕ) : Prop := ∀ m < n, n ≤ m + N → slots (Fin.ofNat N m) = f m

omit [AddCommGroup M] in
theorem Keeps.succ (keeps : Keeps slots f n) : Keeps (Function.update slots (Fin.ofNat N n) (f n)) f (n + 1) := by
  intro m earlier near
  by_cases last : m = n
  · rw [last, Function.update_self]
  · rw [Function.update_of_ne (ofNat_ne (by omega) (by omega)).symm]
    exact keeps m (by omega) (by omega)

/-! ### Backwards -/

/-- The ring holds the window that starts with the term `w`. -/
def HoldsWindow (slots : Fin N → M) (f : ℕ → M) (w : ℕ) : Prop :=
  ∀ m, w ≤ m → m < w + N → slots (Fin.ofNat N m) = f m

/-- A ring that has been filled holds the last window. -/
theorem Holds.window {w : ℕ} (holds : Holds slots f (w + N)) : HoldsWindow slots f w := by
  intro m later below
  have term := holds (m + N) (by omega) (by omega)
  rwa [ofNat_add_self, leaving, if_pos (Nat.le_add_left N m), Nat.add_sub_cancel] at term

omit [AddCommGroup M] in
/-- A term of the window in its own place changes nothing. -/
theorem HoldsWindow.update {w m : ℕ} (holds : HoldsWindow slots f w) (later : w ≤ m) (below : m < w + N) :
    Function.update slots (Fin.ofNat N m) (f m) = slots :=
  Function.update_eq_self_iff.mpr (holds m later below).symm

omit [AddCommGroup M] in
/-- The term before the window takes the place of the last one. -/
theorem HoldsWindow.back {w : ℕ} (holds : HoldsWindow slots f (w + 1)) :
    slots (Fin.ofNat N w) = f (w + N) ∧ HoldsWindow (Function.update slots (Fin.ofNat N w) (f w)) f w := by
  have positive : 0 < N := NeZero.pos N
  constructor
  · rw [← ofNat_add_self]
    exact holds (w + N) (by omega) (by omega)
  · intro m later below
    by_cases first : m = w
    · rw [first, Function.update_self]
    · rw [Function.update_of_ne (ofNat_ne (by omega) (by omega))]
      exact holds m (by omega) (by omega)

theorem sum_back (f : ℕ → M) (N w : ℕ) :
    ∑ m ∈ Finset.Ico (w + 1) (w + 1 + N), f m - f (w + N) + f w = ∑ m ∈ Finset.Ico w (w + N), f m := by
  have next : w + 1 + N = w + N + 1 := by omega
  have last := Finset.sum_Ico_succ_top (show w ≤ w + N by omega) f
  have first := Finset.sum_eq_sum_Ico_succ_bot (show w < w + N + 1 by omega) f
  rw [next, sub_add_eq_add_sub, add_comm, ← first, last, add_sub_cancel_right]

end

/-! ### The end of a list -/

section
variable {α : Type} {n : ℕ} {values more : List α} {v : α}

/-- The last `n` elements. -/
def lastOf (n : ℕ) (values : List α) : List α := values.drop (values.length - n)

theorem lastOf_length : (lastOf n values).length = min values.length n := by
  rw [lastOf, List.length_drop]
  omega

theorem lastOf_short (short : values.length ≤ n) : lastOf n values = values := by
  rw [lastOf, Nat.sub_eq_zero_of_le short, List.drop_zero]

/-- The last elements of two lists together. -/
theorem lastOf_append : lastOf n (values ++ more) = lastOf (n - more.length) values ++ lastOf n more := by
  have second : values.length + more.length - n - values.length = more.length - n := by omega
  simp only [lastOf, List.length_append, List.drop_append, second, List.append_cancel_right_eq]
  rcases Nat.le_total more.length n with fits | full
  · congr 1
    omega
  · rw [List.drop_eq_nil_of_le (by omega), List.drop_eq_nil_of_le (by omega)]

theorem lastOf_snoc (long : n ≤ values.length) (positive : 0 < n) : lastOf n (values ++ [v]) = (lastOf n values).tail ++ [v] := by
  have room : [v].length ≤ n := positive
  have place : values.length - (n - [v].length) = values.length - n + 1 := by
    rw [List.length_singleton]
    omega
  rw [lastOf_append, lastOf_short room, lastOf, lastOf, List.tail_drop, place]

end

end Tortuga.SlidingWindows
