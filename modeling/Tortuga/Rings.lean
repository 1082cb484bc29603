import Mathlib.Data.Nat.ModEq
import Mathlib.Logic.Function.Basic

/-!
Rings: the slots of a buffer from a place on, with the first slot again after the last.
-/
namespace Tortuga.Rings

section
variable {α : Type} {slots : ℕ → α} {n start stop k i : ℕ} {x : α}

/-- The `k` slots from `start` on, in a ring of `n`. -/
def window (slots : ℕ → α) (n : ℕ) : ℕ → ℕ → List α
  | _, 0 => []
  | start, k + 1 => slots (start % n) :: window slots n (start + 1) k

@[simp] theorem window_zero : window slots n start 0 = [] := rfl

theorem window_succ : window slots n start (k + 1) = slots (start % n) :: window slots n (start + 1) k := rfl

@[simp] theorem window_length : (window slots n start k).length = k := by
  induction k generalizing start with
  | zero => rfl
  | succ k ih => rw [window_succ, List.length_cons, ih]

/-- Only the place in the ring matters. -/
theorem window_congr (same : start % n = stop % n) : window slots n start k = window slots n stop k := by
  induction k generalizing start stop with
  | zero => rfl
  | succ k ih =>
    have later : (start + 1) % n = (stop + 1) % n := Nat.ModEq.add_right 1 same
    rw [window_succ, window_succ, same, ih later]

/-- The slot behind the window. -/
theorem window_snoc : window slots n start (k + 1) = window slots n start k ++ [slots ((start + k) % n)] := by
  induction k generalizing start with
  | zero => rfl
  | succ k ih =>
    rw [window_succ, ih, window_succ, List.cons_append]
    have place : start + 1 + k = start + (k + 1) := by omega
    rw [place]

/-- A slot outside the window may change. -/
theorem window_update (outside : ∀ j < k, (start + j) % n ≠ i) :
    window (Function.update slots i x) n start k = window slots n start k := by
  induction k with
  | zero => rfl
  | succ k ih =>
    rw [window_snoc, window_snoc, ih (fun j lt => outside j (Nat.lt_succ_of_lt lt)),
      Function.update_of_ne (outside k (Nat.lt_succ_self k))]

/-- The slot behind a window that is not the whole ring is outside of it. -/
theorem behind_outside (room : k < n) : ∀ j < k, (start + j) % n ≠ (start + k) % n := by
  intro j lt same
  have equal : j % n = k % n := Nat.ModEq.add_left_cancel' start same
  rw [Nat.mod_eq_of_lt room, Nat.mod_eq_of_lt (Nat.lt_trans lt room)] at equal
  omega

/-- A value written behind the window is its last. -/
theorem window_push (room : k < n) :
    window (Function.update slots ((start + k) % n) x) n start (k + 1) = window slots n start k ++ [x] := by
  rw [window_snoc, window_update (behind_outside room), Function.update_self]

end

end Tortuga.Rings
