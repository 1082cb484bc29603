import Mathlib.Algebra.Order.Archimedean.Basic
import Mathlib.Algebra.Order.Ring.Rat
import Mathlib.Algebra.BigOperators.Group.List.Basic
import Mathlib.Data.Rat.Floor
import Mathlib.Tactic.Linarith
import Mathlib.Tactic.Ring

/-!
The decorator `fixed_update` (`core.py`) lets an update function be called at its own rate: the
time that has passed is added up, and each interval in it is one call. A second or more at once is
one call only.
-/
namespace Tortuga.FixedUpdate
set_option linter.unusedSimpArgs false

/-- `while (elapsed > update_interval)`, with the calls of the function so far. Nothing where it
    takes more rounds than `fuel`. -/
def whileLoop (updateInterval : ℚ) : ℕ → ℕ → ℚ → Option (ℕ × ℚ)
  | 0, _, _ => none
  | fuel + 1, calls, elapsed =>
    if elapsed > updateInterval then whileLoop updateInterval fuel (calls + 1) (elapsed - updateInterval)
    else some (calls, elapsed)

/-- One call of the wrapper: the time with what had been left, how often the function was called,
    and what is left. -/
structure Update where
  accumulated : ℚ
  calls : ℕ
  elapsed : ℚ
  deriving DecidableEq, Repr

/-- The name of the attribute is bound only where the decorator has made it up itself. -/
inductive PyError where
  | nameError
  deriving DecidableEq, Repr

/-- `attr` is what the object has by the name, nothing before the first call. -/
def wrapper (elapsedAttr : Option String) (updateInterval : ℚ) (fuel : ℕ) (attr : Option ℚ) (time : ℚ) :
    Option (Except PyError Update) :=
  match elapsedAttr with
  | some _ => some (.error .nameError)
  | none =>
    let elapsed := attr.getD 0 + time
    if elapsed > updateInterval ∧ elapsed < 1 then
      (whileLoop updateInterval fuel 0 elapsed).map fun left => .ok ⟨elapsed, left.1, left.2⟩
    else if elapsed < updateInterval then some (.ok ⟨elapsed, 0, elapsed⟩)
    else some (.ok ⟨elapsed, 1, 0⟩)

/-- The calls of the wrapper of one object, one after the other. -/
def wrapperAll (elapsedAttr : Option String) (updateInterval : ℚ) (fuel : ℕ) :
    Option ℚ → List ℚ → Option (Except PyError (List Update))
  | _, [] => some (.ok [])
  | attr, time :: times =>
    match wrapper elapsedAttr updateInterval fuel attr time with
    | none => none
    | some (.error e) => some (.error e)
    | some (.ok u) => (wrapperAll elapsedAttr updateInterval fuel (some u.elapsed) times).map (Except.map (u :: ·))

/-! ### What is meant -/

/-- The accumulated time is worth several calls, without a remainder. -/
def Multiple (updateInterval accumulated : ℚ) : Prop :=
  accumulated < 1 ∧ ∃ k : ℕ, 2 ≤ k ∧ accumulated = k * updateInterval

/-- What one call of the wrapper makes of the accumulated time. -/
structure Update.Meets (updateInterval : ℚ) (u : Update) : Prop where
  early : u.accumulated < updateInterval → u.calls = 0 ∧ u.elapsed = u.accumulated
  kept : updateInterval ≤ u.accumulated → u.accumulated < 1 → u.calls * updateInterval + u.elapsed = u.accumulated
  reset : updateInterval ≤ u.accumulated → 1 ≤ u.accumulated → u.calls = 1 ∧ u.elapsed = 0
  nonneg : 0 ≤ u.elapsed
  below : ¬ Multiple updateInterval u.accumulated → u.elapsed < updateInterval

/-- The time that is lost so that the object is not behind for ever. -/
def dropped (updateInterval accumulated : ℚ) : ℚ :=
  if updateInterval ≤ accumulated ∧ 1 ≤ accumulated then accumulated - updateInterval else 0

/-- What is left after the last of the calls. -/
def remainder (start : ℚ) (us : List Update) : ℚ := (us.getLast?.map Update.elapsed).getD start

section
variable {updateInterval elapsed time : ℚ} {attr : Option ℚ} {fuel calls n : ℕ} {u : Update}

/-- The loop leaves off with more than nothing and at most one interval. -/
theorem whileLoop_eq (positive : 0 < updateInterval) (above : n * updateInterval < elapsed)
    (most : elapsed ≤ (n + 1) * updateInterval) (enough : n < fuel) :
    whileLoop updateInterval fuel calls elapsed = some (calls + n, elapsed - n * updateInterval) := by
  induction n generalizing fuel calls elapsed with
  | zero =>
    obtain ⟨fuel, rfl⟩ : ∃ k, fuel = k + 1 := ⟨fuel - 1, by omega⟩
    have done : ¬ elapsed > updateInterval := by
      simp at most
      exact not_lt.mpr most
    rw [whileLoop, if_neg done]
    simp
  | succ n ih =>
    obtain ⟨fuel, rfl⟩ : ∃ k, fuel = k + 1 := ⟨fuel - 1, by omega⟩
    push_cast at above most ⊢
    have several : 0 ≤ n * updateInterval := by positivity
    have more : elapsed > updateInterval := by linarith
    rw [whileLoop, if_pos more, ih (by linarith) (by linarith) (by omega)]
    congr 2
    · omega
    · ring

theorem rounds_exists (positive : 0 < updateInterval) (some : 0 < elapsed) :
    ∃ n : ℕ, n * updateInterval < elapsed ∧ elapsed ≤ (n + 1) * updateInterval := by
  have least : ∃ n : ℕ, elapsed ≤ (n + 1) * updateInterval := by
    obtain ⟨n, le⟩ := Archimedean.arch elapsed positive
    rw [nsmul_eq_mul] at le
    exact ⟨n, by linarith⟩
  classical
  refine ⟨Nat.find least, ?_, Nat.find_spec least⟩
  cases found : Nat.find least with
  | zero => simpa using some
  | succ n =>
    have above := Nat.find_min least (m := n) (by omega)
    push_cast at above ⊢
    exact not_le.mp above

/-- Whatever has been left and whatever time comes to it, one call does what is meant. -/
theorem wrapper_meets (positive : 0 < updateInterval) (left : 0 ≤ attr.getD 0) (forward : 0 ≤ time) :
    ∃ u n, (∀ fuel, n < fuel → wrapper none updateInterval fuel attr time = some (.ok u)) ∧
      u.accumulated = attr.getD 0 + time ∧ u.Meets updateInterval := by
  generalize sum : attr.getD 0 + time = elapsed
  have nonneg : 0 ≤ elapsed := by linarith
  by_cases several : elapsed > updateInterval ∧ elapsed < 1
  · obtain ⟨n, above, most⟩ := rounds_exists positive (lt_trans positive several.1)
    refine ⟨⟨elapsed, n, elapsed - n * updateInterval⟩, n, fun fuel enough => ?_, rfl, ?_⟩
    · rw [wrapper]
      simp only [sum, if_pos several, whileLoop_eq positive above most enough]
      simp
    · refine ⟨fun early => ?_, fun _ _ => ?_, fun _ late => ?_, ?_, fun other => ?_⟩
      · exact absurd early (not_lt.mpr several.1.le)
      · ring
      · exact absurd late (not_le.mpr several.2)
      · exact sub_nonneg.mpr above.le
      · -- A whole interval is left only where the time is a multiple of it.
        have apart : elapsed ≠ (n + 1) * updateInterval := by
          intro equal
          refine other ⟨several.2, n + 1, ?_, by rw [equal]; push_cast; rfl⟩
          by_contra single
          obtain rfl : n = 0 := by omega
          simp at equal
          exact absurd equal several.1.ne'
        have less := lt_of_le_of_ne most apart
        show elapsed - n * updateInterval < updateInterval
        linarith
  · by_cases early : elapsed < updateInterval
    · refine ⟨⟨elapsed, 0, elapsed⟩, 0, fun fuel _ => ?_, rfl, ?_⟩
      · rw [wrapper]
        simp only [sum, if_neg several, if_pos early]
      · refine ⟨fun _ => ⟨rfl, rfl⟩, fun late => ?_, fun late => ?_, nonneg, fun _ => early⟩
        · exact absurd early (not_lt.mpr late)
        · exact absurd early (not_lt.mpr late)
    · have late := not_lt.mp early
      refine ⟨⟨elapsed, 1, 0⟩, 0, fun fuel _ => ?_, rfl, ?_⟩
      · rw [wrapper]
        simp only [sum, if_neg several, if_neg early]
      · refine ⟨fun before => ?_, fun _ below => ?_, fun _ _ => ⟨rfl, rfl⟩, le_refl _, fun _ => positive⟩
        · exact absurd before early
        · have equal : elapsed = updateInterval := by
            refine le_antisymm (not_lt.mp fun more => several ⟨more, below⟩) late
          simp [equal]

/-- The time of one call: what has been called for, what is left and what is lost. -/
theorem Update.Meets.account (meets : u.Meets updateInterval) :
    u.calls * updateInterval + u.elapsed + dropped updateInterval u.accumulated = u.accumulated := by
  rw [dropped]
  rcases lt_or_ge u.accumulated updateInterval with early | late
  · obtain ⟨calls, elapsed⟩ := meets.early early
    simp [not_le.mpr early, calls, elapsed]
  · rcases lt_or_ge u.accumulated 1 with below | above
    · simp [not_le.mpr below, meets.kept late below]
    · obtain ⟨calls, elapsed⟩ := meets.reset late above
      simp [late, above, calls, elapsed]

@[simp] theorem remainder_nil (start : ℚ) : remainder start [] = start := rfl

@[simp] theorem remainder_cons (start : ℚ) (u : Update) (us : List Update) : remainder start (u :: us) = remainder u.elapsed us := by
  cases us with
  | nil => rfl
  | cons v us => simp [remainder, List.getLast?_cons]

/-- A whole run, from whatever has been left. -/
theorem wrapperAll_meets (positive : 0 < updateInterval) (times : List ℚ) (forward : ∀ time ∈ times, 0 ≤ time)
    (left : 0 ≤ attr.getD 0) :
    ∃ us n, (∀ fuel, n < fuel → wrapperAll none updateInterval fuel attr times = some (.ok us)) ∧ us.length = times.length ∧
      (∀ u ∈ us, u.Meets updateInterval) ∧
      (us.map fun u => (u.calls : ℚ)).sum * updateInterval + remainder (attr.getD 0) us +
        (us.map fun u => dropped updateInterval u.accumulated).sum = attr.getD 0 + times.sum := by
  induction times generalizing attr with
  | nil => exact ⟨[], 0, fun _ _ => rfl, rfl, fun u member => absurd member List.not_mem_nil, by simp⟩
  | cons time times ih =>
    obtain ⟨u, n, one, accumulated, meets⟩ := wrapper_meets positive left (forward time List.mem_cons_self)
    have later (time : ℚ) (member : time ∈ times) : 0 ≤ time := forward time (List.mem_cons_of_mem _ member)
    have nonneg : 0 ≤ (some u.elapsed).getD 0 := meets.nonneg
    obtain ⟨us, m, rest, length, all, account⟩ := ih later nonneg
    refine ⟨u :: us, max n m, fun fuel enough => ?_, by simp [length], ?_, ?_⟩
    · rw [wrapperAll, one fuel (lt_of_le_of_lt (le_max_left n m) enough)]
      simp only [rest fuel (lt_of_le_of_lt (le_max_right n m) enough)]
      rfl
    · intro v member
      rcases List.mem_cons.mp member with rfl | later
      · exact meets
      · exact all v later
    · have single := meets.account
      rw [accumulated] at single
      simp only [Option.getD_some] at account
      simp only [List.map_cons, List.sum_cons, remainder_cons, accumulated]
      linarith

end

/-- The calls account for all time but what is dropped in calls after a second or more. -/
theorem fixedUpdate_account (updateInterval : ℚ) (positive : 0 < updateInterval) (times : List ℚ) (forward : ∀ time ∈ times, 0 ≤ time) :
    ∃ us n, (∀ fuel, n < fuel → wrapperAll none updateInterval fuel none times = some (.ok us)) ∧ us.length = times.length ∧
      (∀ u ∈ us, u.Meets updateInterval) ∧
      (us.map fun u => (u.calls : ℚ)).sum * updateInterval + remainder 0 us +
        (us.map fun u => dropped updateInterval u.accumulated).sum = times.sum := by
  obtain ⟨us, n, run, length, all, account⟩ := wrapperAll_meets positive times forward (le_refl ((none : Option ℚ).getD 0))
  refine ⟨us, n, run, length, all, ?_⟩
  rw [Option.getD_none, zero_add] at account
  exact account

theorem fixedUpdate_physics : ∃ us n,
    (∀ fuel, n < fuel → wrapperAll none (1 / 60) fuel none [1 / 25, 1 / 100, 3] = some (.ok us)) ∧ us.length = 3 ∧
      (∀ u ∈ us, u.Meets (1 / 60)) ∧
      (us.map fun u => (u.calls : ℚ)).sum * (1 / 60) + remainder 0 us + (us.map fun u => dropped (1 / 60) u.accumulated).sum =
        [1 / 25, 1 / 100, 3].sum :=
  fixedUpdate_account (1 / 60) (by norm_num) [1 / 25, 1 / 100, 3] (by simp)

/-- Two seconds at once are one call of an update that is due each half second, and nothing is left. -/
theorem fixedUpdate_behind : wrapperAll none (1 / 2) 5 none [2] = some (.ok [⟨2, 1, 0⟩]) ∧ (1 : ℚ) * (1 / 2) + 0 ≠ 2 := by
  decide +kernel

end Tortuga.FixedUpdate
