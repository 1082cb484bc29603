import Mathlib.Data.Nat.Notation
import Mathlib.Tactic.Cases

/-!
How long something has not been seen, when the same things are looked for again and again.
-/
namespace Tortuga.Absences

section
variable {I : Type} (seen : ℕ → I → Prop)

/-- Before look `n`, `i` was last seen `k` looks before the last one. -/
def Absent (n : ℕ) (i : I) (k : ℕ) : Prop := ∃ j, j + k + 1 = n ∧ seen j i ∧ ∀ m, j < m → m < n → ¬ seen m i

variable {seen} {n m k l : ℕ} {i : I}

theorem absent_start : ¬ Absent seen 0 i k := by
  rintro ⟨j, sum, _⟩
  omega

theorem absent_zero : Absent seen (n + 1) i 0 ↔ seen n i := by
  constructor
  · rintro ⟨j, sum, here, _⟩
    obtain rfl : j = n := by omega
    exact here
  · intro here
    exact ⟨n, rfl, here, fun m after before => absurd after (Nat.not_lt.mpr (Nat.le_of_lt_succ before))⟩

theorem absent_succ : Absent seen (n + 1) i (k + 1) ↔ Absent seen n i k ∧ ¬ seen n i := by
  constructor
  · rintro ⟨j, sum, here, since⟩
    exact ⟨⟨j, by omega, here, fun m after before => since m after (Nat.lt_succ_of_lt before)⟩, since n (by omega) (Nat.lt_succ_self n)⟩
  · rintro ⟨⟨j, sum, here, since⟩, missing⟩
    refine ⟨j, by omega, here, fun m after before => ?_⟩
    rcases Nat.lt_succ_iff_lt_or_eq.mp before with before | rfl
    · exact since m after before
    · exact missing

/-- The last time is only one. -/
theorem Absent.unique (one : Absent seen n i k) (other : Absent seen n i l) : k = l := by
  obtain ⟨j, sum, here, since⟩ := one
  obtain ⟨j', sum', here', since'⟩ := other
  rcases Nat.lt_trichotomy j j' with less | same | more
  · exact absurd here' (since j' less (by omega))
  · omega
  · exact absurd here (since' j more (by omega))

/-- What is not seen again after it has been absent for `k` looks, is absent for `k` looks only once. -/
theorem Absent.once (one : Absent seen n i k) (other : Absent seen m i k) (gone : ∀ l, n ≤ l → l < m → ¬ seen l i)
    (order : n ≤ m) : n = m := by
  obtain ⟨j, sum, here, since⟩ := one
  obtain ⟨j', sum', here', since'⟩ := other
  rcases Nat.lt_trichotomy j j' with less | same | more
  · rcases Nat.lt_or_ge j' n with early | late
    · exact absurd here' (since j' less early)
    · exact absurd here' (gone j' late (by omega))
  · omega
  · exact absurd here (since' j more (by omega))

end

end Tortuga.Absences
