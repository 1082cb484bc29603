import Mathlib.Data.List.Nodup
import Mathlib.Data.Nat.Find

/-!
A matcher that looks for a pattern in a stream by counting how much of it has come. What
does not continue the pattern makes it start over with the next element, even when that
element could itself begin the pattern.
-/
namespace Tortuga.Matchers

variable {α : Type} [DecidableEq α]

/-- What follows the pattern in a stream, when `k` elements of the pattern have come before. -/
def remainder (p : List α) : ℕ → List α → Option (List α)
  | _, [] => none
  | k, x :: xs =>
    if p[k]? = some x then
      if k + 1 = p.length then some xs else remainder p (k + 1) xs
    else remainder p 0 xs

/-- No part of the pattern is broken off by the element that the pattern begins with. -/
def Unbroken (p : List α) : ℕ → List α → Prop
  | _, [] => True
  | k, x :: xs =>
    if p[k]? = some x then k + 1 < p.length → Unbroken p (k + 1) xs
    else (0 < k → p[0]? ≠ some x) ∧ Unbroken p 0 xs

variable {p : List α} {k : ℕ} {x : α} {xs rest : List α}

omit [DecidableEq α] in
theorem take_snoc (next : p[k]? = some x) : p.take (k + 1) = p.take k ++ [x] := by
  rw [List.take_add_one, next]
  rfl

/-- The matcher is done only where the pattern is. -/
theorem remainder_sound (inside : k < p.length) (found : remainder p k xs = some rest) :
    ∃ noise, p.take k ++ xs = noise ++ p ++ rest := by
  induction xs generalizing k with
  | nil => simp [remainder] at found
  | cons x xs ih =>
    rw [remainder] at found
    by_cases next : p[k]? = some x
    · rw [if_pos next] at found
      have taken := take_snoc next
      by_cases last : k + 1 = p.length
      · rw [if_pos last, Option.some.injEq] at found
        rw [last, List.take_length] at taken
        exact ⟨[], by rw [List.nil_append, ← found, List.append_cons, ← taken]⟩
      · rw [if_neg last] at found
        obtain ⟨noise, split⟩ := ih (by omega) found
        exact ⟨noise, by simpa [taken] using split⟩
    · rw [if_neg next] at found
      obtain ⟨noise, split⟩ := ih (by omega) found
      exact ⟨p.take k ++ x :: noise, by simpa using split⟩

/-- The pattern is in the stream, and not earlier than after `noise`. -/
structure First (p stream noise rest : List α) : Prop where
  split : stream = noise ++ p ++ rest
  least : ∀ noise' rest', stream = noise' ++ p ++ rest' → noise.length ≤ noise'.length

omit [DecidableEq α] in
/-- There is a first occurrence where there is one. -/
theorem first_of_occurs {stream : List α} (occurs : p <:+: stream) : ∃ noise rest, First p stream noise rest := by
  classical
  have some : ∃ n noise rest, stream = noise ++ p ++ rest ∧ noise.length = n := by
    obtain ⟨noise, rest, split⟩ := occurs
    exact ⟨_, noise, rest, split.symm, rfl⟩
  obtain ⟨noise, rest, split, length⟩ := Nat.find_spec some
  refine ⟨noise, rest, split, fun noise' rest' split' => ?_⟩
  rw [length]
  exact Nat.find_min' some ⟨noise', rest', split', rfl⟩

omit [DecidableEq α] in
/-- Where a part of the pattern ends with an element that does not continue it, no occurrence
    begins before the element behind, when the pattern has no element twice. -/
theorem late {noise : List α} (distinct : p.Nodup) (inside : k < p.length) (next : p[k]? ≠ some x)
    (unbroken : 0 < k → p[0]? ≠ some x) (split : p.take k ++ x :: xs = noise ++ p ++ rest) : k < noise.length := by
  by_contra early
  have width : (p.take k).length = k := by
    rw [List.length_take]
    omega
  have begins : (p.take k ++ x :: xs)[noise.length]? = p[0]? := by
    rw [split, List.append_assoc, List.getElem?_append_right (Nat.le_refl _), Nat.sub_self, List.getElem?_append_left (by omega)]
  rcases Nat.lt_or_eq_of_le (Nat.le_of_not_lt early) with low | same
  · rw [List.getElem?_append_left (by omega), List.getElem?_take_of_lt low] at begins
    have zero : noise.length = 0 := (List.getElem?_inj (by omega) distinct).mp begins
    have nothing : noise = [] := List.length_eq_zero_iff.mp zero
    subst nothing
    have cell := congrArg (·[k]?) split
    simp only [List.nil_append] at cell
    rw [List.getElem?_append_right (by omega), List.getElem?_append_left inside, width, Nat.sub_self] at cell
    exact next cell.symm
  · rw [same, List.getElem?_append_right (by omega), width, Nat.sub_self] at begins
    rcases Nat.eq_zero_or_pos k with rfl | positive
    · exact next begins.symm
    · exact unbroken positive begins.symm

/-- An unbroken stream with the pattern is matched, at its first occurrence. -/
theorem remainder_complete (distinct : p.Nodup) (inside : k < p.length) (unbroken : Unbroken p k xs) {noise : List α}
    (split : p.take k ++ xs = noise ++ p ++ rest) :
    ∃ rest', remainder p k xs = some rest' ∧ ∃ noise', p.take k ++ xs = noise' ++ p ++ rest' ∧ noise'.length ≤ noise.length := by
  induction xs generalizing k noise with
  | nil =>
    have lengths := congrArg List.length split
    simp only [List.append_nil, List.length_append, List.length_take] at lengths
    omega
  | cons x xs ih =>
    rw [Unbroken] at unbroken
    rw [remainder]
    by_cases next : p[k]? = some x
    · have taken := take_snoc next
      rw [if_pos next] at unbroken ⊢
      by_cases last : k + 1 = p.length
      · rw [last, List.take_length] at taken
        exact ⟨xs, if_pos last, [], by rw [List.nil_append, List.append_cons, ← taken], Nat.zero_le _⟩
      · obtain ⟨rest', found, noise', split', low⟩ := ih (by omega) (unbroken (by omega)) (by simpa [taken] using split)
        exact ⟨rest', by rw [if_neg last, found], noise', by simpa [taken] using split', low⟩
    · rw [if_neg next] at unbroken ⊢
      have behind := late distinct inside next unbroken.1 split
      have front : p.take k ++ [x] <+: noise := by
        have short : p.take k ++ [x] <+: p.take k ++ x :: xs := ⟨xs, by simp⟩
        have long : noise <+: p.take k ++ x :: xs := ⟨p ++ rest, by simp [split]⟩
        refine List.prefix_of_prefix_length_le short long ?_
        rw [List.length_append, List.length_take, List.length_singleton]
        omega
      obtain ⟨noise, rfl⟩ := front
      obtain ⟨rest', found, noise', split', low⟩ := ih (by omega) unbroken.2 (by simpa using split)
      refine ⟨rest', found, p.take k ++ x :: noise', by simpa using split', ?_⟩
      simp only [List.length_append, List.length_cons, List.length_nil]
      omega

/-- In an unbroken stream the matcher is done right after the first occurrence. -/
theorem remainder_first (distinct : p.Nodup) (nonempty : 0 < p.length) {stream : List α} (unbroken : Unbroken p 0 stream) :
    remainder p 0 stream = some rest ↔ ∃ noise, First p stream noise rest := by
  have least {rest : List α} {noise : List α} (split : stream = noise ++ p ++ rest) :=
    remainder_complete distinct nonempty unbroken split
  constructor
  · intro found
    obtain ⟨noise, split⟩ := remainder_sound nonempty found
    refine ⟨noise, split, fun noise' rest' other => ?_⟩
    obtain ⟨rest'', found', noise'', split'', low⟩ := least other
    rw [found, Option.some.injEq] at found'
    subst found'
    have same : noise'' = noise := by
      have whole : noise'' ++ (p ++ rest) = noise ++ (p ++ rest) := by
        rw [← List.append_assoc, ← List.append_assoc, ← split, ← split'']
      exact List.append_cancel_right whole
    rwa [same] at low
  · rintro ⟨noise, split, first⟩
    obtain ⟨rest', found, noise', split', low⟩ := least split
    have high := first noise' rest' split'
    have same : noise' = noise := by
      have whole : noise' ++ (p ++ rest') = noise ++ (p ++ rest) := by
        rw [← List.append_assoc, ← List.append_assoc, ← split, ← split']
        rfl
      exact (List.append_inj whole (by omega)).1
    subst same
    rw [found, Option.some.injEq]
    exact List.append_cancel_left (split'.symm.trans split)

end Tortuga.Matchers
