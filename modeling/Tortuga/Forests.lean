import Mathlib.Data.Nat.Notation
import Mathlib.Logic.Function.Basic

/-!
Tables that join numbers into classes: each number points to itself or to a smaller one, and those
that lead to the same number are in one class.
-/
namespace Tortuga.Forests

/-- The number that is reached from `k` in a number of steps. -/
def follow (parent : ℕ → ℕ) : ℕ → ℕ → ℕ
  | 0, k => k
  | steps + 1, k => if k = parent k then k else follow parent steps (parent k)

/-- The end of the way from `k`. -/
def root (parent : ℕ → ℕ) (k : ℕ) : ℕ := follow parent k k

/-- The positive numbers below `n` point to positive numbers that are no larger. -/
def Forest (parent : ℕ → ℕ) (n : ℕ) : Prop := ∀ k, 0 < k → k < n → 0 < parent k ∧ parent k ≤ k

section
variable {parent : ℕ → ℕ} {n k c f : ℕ}

theorem follow_self {steps : ℕ} (self : parent k = k) : follow parent steps k = k := by
  cases steps with
  | zero => rfl
  | succ steps => exact if_pos self.symm

theorem root_self (self : parent k = k) : root parent k = k := follow_self self

/-- No more steps are needed than the number itself says. -/
theorem follow_enough (forest : Forest parent n) (positive : 0 < k) (less : k < n) {steps : ℕ} (enough : k ≤ steps) :
    follow parent steps k = root parent k := by
  induction k using Nat.strongRecOn generalizing steps with
  | ind k ih =>
    by_cases self : parent k = k
    · rw [root_self self, follow_self self]
    · obtain ⟨above, below⟩ := forest k positive less
      have smaller : parent k < k := Nat.lt_of_le_of_ne below self
      obtain ⟨steps, rfl⟩ : ∃ s, steps = s + 1 := ⟨steps - 1, by omega⟩
      obtain ⟨j, rfl⟩ : ∃ j, k = j + 1 := ⟨k - 1, by omega⟩
      have one (s : ℕ) : follow parent (s + 1) (j + 1) = follow parent s (parent (j + 1)) := if_neg fun same => self same.symm
      rw [root, one, one, ih _ smaller above (Nat.lt_trans smaller less) (by omega),
        ih _ smaller above (Nat.lt_trans smaller less) (by omega)]

/-- The way from a number goes on from its parent. -/
theorem root_parent (forest : Forest parent n) (positive : 0 < k) (less : k < n) : root parent (parent k) = root parent k := by
  by_cases self : parent k = k
  · rw [self]
  · obtain ⟨above, below⟩ := forest k positive less
    have smaller : parent k < k := Nat.lt_of_le_of_ne below self
    have one : follow parent (k + 1) k = follow parent k (parent k) := if_neg fun same => self same.symm
    rw [← follow_enough forest positive less (Nat.le_succ k), one,
      follow_enough forest above (Nat.lt_trans smaller less) (Nat.le_of_lt smaller)]

/-- What holds of the roots and is handed down from a parent holds of all numbers. -/
theorem forest_induction (forest : Forest parent n) {P : ℕ → Prop} (roots : ∀ k, 0 < k → k < n → parent k = k → P k)
    (step : ∀ k, 0 < k → k < n → parent k < k → P (parent k) → P k) (positive : 0 < k) (less : k < n) : P k := by
  induction k using Nat.strongRecOn with
  | ind k ih =>
    obtain ⟨above, below⟩ := forest k positive less
    by_cases self : parent k = k
    · exact roots k positive less self
    · have smaller : parent k < k := Nat.lt_of_le_of_ne below self
      exact step k positive less smaller (ih _ smaller above (Nat.lt_trans smaller less))

/-- The end of the way is a root, and no larger. -/
theorem root_spec (forest : Forest parent n) (positive : 0 < k) (less : k < n) :
    0 < root parent k ∧ root parent k ≤ k ∧ parent (root parent k) = root parent k := by
  refine forest_induction forest (P := fun k => 0 < root parent k ∧ root parent k ≤ k ∧ parent (root parent k) = root parent k)
    ?_ ?_ positive less
  · intro k positive less self
    rw [root_self self]
    exact ⟨positive, Nat.le_refl k, self⟩
  · rintro k positive less smaller ⟨above, below, ends⟩
    rw [root_parent forest positive less] at above below ends
    exact ⟨above, Nat.le_trans below (Nat.le_of_lt smaller), ends⟩

/-- A number points to a root of its own class, or is itself a root and joins another class. -/
structure Joins (parent : ℕ → ℕ) (n c f : ℕ) : Prop where
  positive : 0 < c
  less : c < n
  target : 0 < f
  self : parent f = f
  below : f ≤ root parent c
  goes : root parent c = f ∨ parent c = c

theorem Joins.le (joins : Joins parent n c f) (forest : Forest parent n) : f ≤ c :=
  Nat.le_trans joins.below (root_spec forest joins.positive joins.less).2.1

theorem Forest.join (forest : Forest parent n) (joins : Joins parent n c f) : Forest (Function.update parent c f) n := by
  intro k positive less
  by_cases here : k = c
  · rw [here, Function.update_self]
    exact ⟨joins.target, joins.le forest⟩
  · rw [Function.update_of_ne here]
    exact forest k positive less

theorem Joins.self_after (joins : Joins parent n c f) : Function.update parent c f f = f := by
  by_cases here : f = c
  · rw [here, Function.update_self]
  · rw [Function.update_of_ne here]
    exact joins.self

/-- The class of `c` goes to `f`, and all others stay. -/
theorem root_join (forest : Forest parent n) (joins : Joins parent n c f) (positive : 0 < k) (less : k < n) :
    root (Function.update parent c f) k = if root parent k = root parent c then f else root parent k := by
  have after := forest.join joins
  have target : root (Function.update parent c f) f = f := root_self joins.self_after
  refine forest_induction forest (P := fun k => root (Function.update parent c f) k =
    if root parent k = root parent c then f else root parent k) ?_ ?_ positive less
  · intro k positive less self
    by_cases here : k = c
    · rw [if_pos (by rw [here]), ← root_parent after positive less, here, Function.update_self, target]
    · have stays : Function.update parent c f k = k := by rw [Function.update_of_ne here, self]
      rw [root_self stays, root_self self]
      split
      · next same =>
        rcases joins.goes with goes | alone
        · exact same.trans goes
        · rw [root_self alone] at same
          exact absurd same here
      · rfl
  · intro k positive less smaller ih
    rw [root_parent forest positive less] at ih
    by_cases here : k = c
    · rw [if_pos (by rw [here]), ← root_parent after positive less, here, Function.update_self, target]
    · rw [← root_parent after positive less, Function.update_of_ne here]
      exact ih

theorem Joins.after {d : ℕ} (forest : Forest parent n) (joins : Joins parent n c f) (other : Joins parent n d f) :
    Joins (Function.update parent c f) n d f where
  positive := other.positive
  less := other.less
  target := other.target
  self := joins.self_after
  below := by
    rw [root_join forest joins other.positive other.less]
    split
    · exact Nat.le_refl f
    · exact other.below
  goes := by
    rw [root_join forest joins other.positive other.less]
    by_cases here : d = c
    · rw [here, if_pos rfl]
      exact .inl rfl
    · rw [Function.update_of_ne here]
      rcases other.goes with goes | alone
      · rw [goes]
        exact .inl (ite_self f)
      · exact .inr alone

/-! ### Numbers that may be zero -/

/-- There is nothing to join, or a number joins. -/
def Meets (parent : ℕ → ℕ) (n c f : ℕ) : Prop := c = 0 ∨ Joins parent n c f

theorem Forest.zero (forest : Forest parent n) : Forest (Function.update parent 0 f) n := by
  intro k positive less
  rw [Function.update_of_ne (Nat.ne_of_gt positive)]
  exact forest k positive less

theorem root_zero (forest : Forest parent n) (positive : 0 < k) (less : k < n) :
    root (Function.update parent 0 f) k = root parent k := by
  refine forest_induction forest (P := fun k => root (Function.update parent 0 f) k = root parent k) ?_ ?_ positive less
  · intro k positive _ self
    have stays : Function.update parent 0 f k = k := by rw [Function.update_of_ne (Nat.ne_of_gt positive), self]
    rw [root_self stays, root_self self]
  · intro k positive less smaller ih
    rw [← root_parent forest.zero positive less, Function.update_of_ne (Nat.ne_of_gt positive), ih, root_parent forest positive less]

theorem Forest.meet (forest : Forest parent n) (meets : Meets parent n c f) : Forest (Function.update parent c f) n := by
  rcases meets with rfl | joins
  · exact forest.zero
  · exact forest.join joins

theorem root_meet (forest : Forest parent n) (meets : Meets parent n c f) (positive : 0 < k) (less : k < n) :
    root (Function.update parent c f) k = if c ≠ 0 ∧ root parent k = root parent c then f else root parent k := by
  rcases meets with rfl | joins
  · rw [root_zero forest positive less, if_neg fun both => both.1 rfl]
  · rw [root_join forest joins positive less]
    simp only [Nat.ne_of_gt joins.positive, ne_eq, not_false_eq_true, true_and]

theorem Meets.after {d : ℕ} (forest : Forest parent n) (meets : Meets parent n c f) (other : Meets parent n d f) :
    Meets (Function.update parent c f) n d f := by
  rcases other with none | other
  · exact .inl none
  · rcases meets with rfl | joins
    · refine .inr ⟨other.positive, other.less, other.target, ?_, ?_, ?_⟩
      · rw [Function.update_of_ne (Nat.ne_of_gt other.target), other.self]
      · rw [root_zero forest other.positive other.less]
        exact other.below
      · rw [root_zero forest other.positive other.less, Function.update_of_ne (Nat.ne_of_gt other.positive)]
        exact other.goes
    · exact .inr (joins.after forest other)

/-- The number is the root of one of two numbers that are not zero. -/
def Touched (parent : ℕ → ℕ) (a b r : ℕ) : Prop := a ≠ 0 ∧ r = root parent a ∨ b ≠ 0 ∧ r = root parent b

/-- What is touched goes to the number that both join. -/
theorem root_touched {a b : ℕ} (forest : Forest parent n) (first : Meets parent n a f) (second : Meets parent n b f)
    (touched : Touched parent a b (root parent k)) (positive : 0 < k) (less : k < n) :
    root (Function.update (Function.update parent a f) b f) k = f := by
  rw [root_meet (forest.meet first) (first.after forest second) positive less, root_meet forest first positive less]
  rcases touched with left | right
  · rw [if_pos left, ite_self]
  · refine if_pos ⟨right.1, ?_⟩
    rcases second with none | joins
    · exact absurd none right.1
    · rw [root_meet forest first joins.positive joins.less, right.2]

/-- All other classes stay, where the number is the root of one that is touched. -/
theorem root_untouched {a b : ℕ} (forest : Forest parent n) (first : Meets parent n a f) (second : Meets parent n b f)
    (among : Touched parent a b f) (untouched : ¬ Touched parent a b (root parent k)) (positive : 0 < k) (less : k < n) :
    root (Function.update (Function.update parent a f) b f) k = root parent k := by
  have left : ¬ (a ≠ 0 ∧ root parent k = root parent a) := fun both => untouched (.inl both)
  rw [root_meet (forest.meet first) (first.after forest second) positive less, root_meet forest first positive less, if_neg left]
  refine if_neg ?_
  rintro ⟨some, same⟩
  rcases second with none | joins
  · exact some none
  · rw [root_meet forest first joins.positive joins.less] at same
    split at same
    · exact untouched (same ▸ among)
    · exact untouched (.inr ⟨some, same⟩)

/-- A new number is a class of its own. -/
theorem Forest.new (forest : Forest parent n) : Forest (Function.update parent n n) (n + 1) := by
  intro k positive less
  by_cases here : k = n
  · rw [here, Function.update_self]
    exact ⟨here ▸ positive, Nat.le_refl n⟩
  · rw [Function.update_of_ne here]
    exact forest k positive (by omega)

theorem root_new (forest : Forest parent n) (positive : 0 < k) (less : k < n) :
    root (Function.update parent n n) k = root parent k := by
  refine forest_induction forest (P := fun k => root (Function.update parent n n) k = root parent k) ?_ ?_ positive less
  · intro k _ less self
    have stays : Function.update parent n n k = k := by rw [Function.update_of_ne (Nat.ne_of_lt less), self]
    rw [root_self stays, root_self self]
  · intro k positive less smaller ih
    rw [← root_parent forest.new positive (Nat.lt_succ_of_lt less), Function.update_of_ne (Nat.ne_of_lt less), ih,
      root_parent forest positive less]

end

end Tortuga.Forests
