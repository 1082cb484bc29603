import Mathlib.Algebra.Order.Archimedean.Basic
import Mathlib.Algebra.Order.BigOperators.Group.List
import Mathlib.Data.Rat.Floor
import Mathlib.Tactic.Linarith
import Mathlib.Tactic.Ring

/-!
The zig-zag search (`ai/state.py`, `ZigZag`): the vehicle strafes and moves forward in turn, each time the
motion before is finished, until it has gone as far as its box is high.
-/
namespace Tortuga.ZigZags

/-! ### Numbers -/

/-- A number of the configuration. The rounding of a `float` is left out. -/
inductive Num where
  | int (n : ℤ)
  | float (x : ℚ)
  deriving DecidableEq, Repr

def Num.value : Num → ℚ
  | .int n => n
  | .float x => x

def Num.add : Num → Num → Num
  | .int m, .int n => .int (m + n)
  | a, b => .float (a.value + b.value)

def Num.mul : Num → Num → Num
  | .int m, .int n => .int (m * n)
  | a, b => .float (a.value * b.value)

/-- The quotient of two integers is rounded down. -/
def Num.div : Num → Num → Num
  | .int m, .int n => .int (m.fdiv n)
  | a, b => .float (a.value / b.value)

theorem Num.value_add (a b : Num) : (a.add b).value = a.value + b.value := by
  cases a <;> cases b <;> simp [Num.add, Num.value]

theorem Num.value_mul (a b : Num) : (a.mul b).value = a.value * b.value := by
  cases a <;> cases b <;> simp [Num.mul, Num.value]

theorem Num.value_div_one (a : Num) : (a.div (.int 1)).value = a.value := by
  cases a <;> simp [Num.div, Num.value]

/-! ### The state -/

/-- The step and the box of a search. -/
structure Settings where
  distanceForward : Num
  boundingWidth : Num
  boundingHeight : Num
  deriving DecidableEq, Repr

/-- What the search is configured with, also the first movement (0 for a strafe and 1 for a move forward)
    and direction (1 for left and -1 for right), which are changed before each move. -/
structure Config extends Settings where
  stateOfMovement : ℕ
  strafeDirection : ℤ
  distanceForward_pos : 0 < distanceForward.value
  boundingWidth_pos : 0 < boundingWidth.value
  boundingHeight_pos : 0 < boundingHeight.value
  movement : stateOfMovement = 0 ∨ stateOfMovement = 1
  direction : strafeDirection = 1 ∨ strafeDirection = -1

structure ZigZag where
  stateOfMovement : ℕ
  strafeDirection : ℤ
  tdt : Num
  firstMovement : ℤ
  deriving DecidableEq, Repr

/-- A move that is ordered, with its distance to the front or to the side, or the event `DONE`. -/
inductive Order where
  | forward (distance : Num)
  | strafe (distance : Num)
  | done
  deriving DecidableEq, Repr

section
variable (c : Settings)

def Forward (s : ZigZag) : ZigZag × Order :=
  -- updates the total distance traveled
  ({ s with tdt := s.tdt.add c.distanceForward }, .forward c.distanceForward)

def Strafe (strafeDirection firstMove : ℤ) : Order :=
  .strafe (((Num.int strafeDirection).mul c.boundingWidth).div (.int firstMove))

def FINISHED (s : ZigZag) : ZigZag × Order :=
  let s := { s with stateOfMovement := if s.stateOfMovement ≥ 1 then 0 else s.stateOfMovement + 1 }
  if s.tdt.value < c.boundingHeight.value then
    if s.stateOfMovement = 0 then Forward c s
    else
      let s := { s with strafeDirection := if s.strafeDirection = 1 then -1 else 1 }
      -- Will only happen once
      if s.firstMovement = 1 then ({ s with firstMovement := 5 }, Strafe c s.strafeDirection 2)
      else (s, Strafe c s.strafeDirection 1)
  else (s, .done)

end

section
variable (c : Config)

/-- The state after that many calls of `FINISHED`. -/
def state : ℕ → ZigZag
  | 0 => ⟨c.stateOfMovement, c.strafeDirection, .int 0, 1⟩
  | i + 1 => (FINISHED c.toSettings (state i)).1

/-- What is ordered on entering, for 0, and at the event number `i`. -/
def order (i : ℕ) : Order := (FINISHED c.toSettings (state c i)).2

/-! ### What is meant -/

def Order.IsForward : Order → Prop
  | .forward _ => True
  | _ => False

def Order.IsStrafe : Order → Prop
  | .strafe _ => True
  | _ => False

/-- How far the order goes to the front. -/
def Order.ahead : Order → ℚ
  | .forward distance => distance.value
  | _ => 0

/-- How far the order goes to the side. -/
def Order.aside : Order → ℚ
  | .strafe distance => distance.value
  | _ => 0

/-- The way to the front that is ordered by the first `n` orders. -/
def ahead (n : ℕ) : ℚ := ((List.range n).map fun i => (order c i).ahead).sum

/-- The offset to the side when the first `n` orders are completed. -/
def offset (n : ℕ) : ℚ := ((List.range n).map fun i => (order c i).aside).sum

/-- The search stays in its box and comes to its end. -/
structure Right : Prop where
  box : ∀ n, ahead c n ≤ c.boundingHeight.value
  side : ∀ i, (order c i).IsStrafe → offset c (i + 1) = c.boundingWidth.value / 2 ∨ offset c (i + 1) = -(c.boundingWidth.value / 2)
  sides : ∀ i j, i < j → (order c i).IsStrafe → (order c j).IsStrafe → (∀ k, i < k → k < j → ¬ (order c k).IsStrafe) →
    offset c (j + 1) = - offset c (i + 1)
  alternate : ∀ i, order c (i + 1) ≠ .done →
    ((order c i).IsStrafe ∧ (order c (i + 1)).IsForward) ∨ ((order c i).IsForward ∧ (order c (i + 1)).IsStrafe)
  ends : ∃ n, ∀ i, order c i = .done ↔ n ≤ i

/-- The step divides the height, and the half of the width is not rounded, unless there is no strafe
    because the first move is forward and reaches the height. -/
def Fits : Prop :=
  (∃ m : ℕ, c.boundingHeight.value = m * c.distanceForward.value) ∧
    ((∃ n, c.boundingWidth = .int n ∧ Odd n) → c.stateOfMovement = 1 ∧ c.boundingHeight.value = c.distanceForward.value)

/-! ### The states in turn -/

/-- The number of moves forward among the first `i` orders, when they are all moves. -/
def forwards (i : ℕ) : ℕ := (i + c.stateOfMovement) / 2

/-- The number of strafes among them. -/
def strafes (i : ℕ) : ℕ := (i + 1 - c.stateOfMovement) / 2

/-- The height is not reached by then. -/
def Alive (i : ℕ) : Prop := forwards c i * c.distanceForward.value < c.boundingHeight.value

/-- The order at that place, when it is a move. -/
def move (i : ℕ) : Order :=
  if (c.stateOfMovement + i) % 2 = 0 then Strafe c.toSettings (c.strafeDirection * (-1) ^ (strafes c i + 1)) (if strafes c i = 0 then 2 else 1)
  else .forward c.distanceForward

/-- The state after `i` moves. -/
structure Reached (i : ℕ) (s : ZigZag) : Prop where
  movement : s.stateOfMovement = (c.stateOfMovement + i) % 2
  tdt : s.tdt.value = forwards c i * c.distanceForward.value
  direction : s.strafeDirection = c.strafeDirection * (-1) ^ strafes c i
  first : s.firstMovement = if strafes c i = 0 then 1 else 5

variable {c}

theorem movement_le_one : c.stateOfMovement ≤ 1 := by
  rcases c.movement with zero | one <;> omega

theorem forwards_strafe {i : ℕ} (strafe : (c.stateOfMovement + i) % 2 = 0) : forwards c (i + 1) = forwards c i := by
  unfold forwards
  omega

theorem forwards_forward {i : ℕ} (forward : (c.stateOfMovement + i) % 2 ≠ 0) : forwards c (i + 1) = forwards c i + 1 := by
  unfold forwards
  omega

theorem strafes_strafe {i : ℕ} (strafe : (c.stateOfMovement + i) % 2 = 0) : strafes c (i + 1) = strafes c i + 1 := by
  have := movement_le_one (c := c)
  unfold strafes
  omega

theorem strafes_forward {i : ℕ} (forward : (c.stateOfMovement + i) % 2 ≠ 0) : strafes c (i + 1) = strafes c i := by
  have := movement_le_one (c := c)
  unfold strafes
  omega

theorem turned (k : ℕ) : (if c.strafeDirection * (-1) ^ k = 1 then -1 else 1 : ℤ) = c.strafeDirection * (-1) ^ (k + 1) := by
  rw [pow_succ]
  rcases c.direction with same | same <;> rcases neg_one_pow_eq_or ℤ k with even | odd <;> simp [*]

theorem Reached.step {i : ℕ} {s : ZigZag} (reached : Reached c i s) (alive : Alive c i) :
    (FINISHED c.toSettings s).2 = move c i ∧ Reached c (i + 1) (FINISHED c.toSettings s).1 := by
  have alive : s.tdt.value < c.boundingHeight.value := by rw [reached.tdt]; exact alive
  have low := movement_le_one (c := c)
  have toggled : (if s.stateOfMovement ≥ 1 then 0 else s.stateOfMovement + 1) = (c.stateOfMovement + (i + 1)) % 2 := by
    rw [reached.movement]
    split_ifs <;> omega
  by_cases strafe : (c.stateOfMovement + i) % 2 = 0
  · have odd : (c.stateOfMovement + (i + 1)) % 2 ≠ 0 := by omega
    by_cases none : strafes c i = 0
    · have first : s.firstMovement = 1 := by rw [reached.first, if_pos none]
      simp only [FINISHED, toggled, if_pos alive, if_neg odd, if_pos first, reached.direction, turned, move, if_pos strafe, if_pos none]
      refine ⟨trivial, rfl, ?_, ?_, ?_⟩
      · rw [forwards_strafe strafe]
        exact reached.tdt
      · rw [strafes_strafe strafe]
      · rw [strafes_strafe strafe]
        rfl
    · have later : s.firstMovement ≠ 1 := by
        rw [reached.first, if_neg none]
        decide
      simp only [FINISHED, toggled, if_pos alive, if_neg odd, if_neg later, reached.direction, turned, move, if_pos strafe, if_neg none]
      refine ⟨trivial, rfl, ?_, ?_, ?_⟩
      · rw [forwards_strafe strafe]
        exact reached.tdt
      · rw [strafes_strafe strafe]
      · rw [strafes_strafe strafe, if_neg (Nat.succ_ne_zero _)]
        rw [reached.first, if_neg none]
  · have even : (c.stateOfMovement + (i + 1)) % 2 = 0 := by omega
    simp only [FINISHED, toggled, if_pos alive, if_pos even, Forward, move, if_neg strafe]
    refine ⟨trivial, rfl, ?_, ?_, ?_⟩
    · simp only [Num.value_add, reached.tdt, forwards_forward strafe, Nat.cast_add, Nat.cast_one]
      ring
    · simp only [strafes_forward strafe, reached.direction]
    · simp only [strafes_forward strafe, reached.first]

theorem Alive.mono {i j : ℕ} (alive : Alive c j) (le : i ≤ j) : Alive c i := by
  refine lt_of_le_of_lt ?_ alive
  have fewer : forwards c i ≤ forwards c j := Nat.div_le_div_right (by omega)
  exact mul_le_mul_of_nonneg_right (by exact_mod_cast fewer) c.distanceForward_pos.le

/-- As long as the height is not reached the state is that after so many moves, and then the way that it
    has gone is at least the height. -/
theorem state_reached (i : ℕ) :
    (∀ j < i, Alive c j) ∧ Reached c i (state c i) ∨ ¬ Alive c i ∧ ¬ (state c i).tdt.value < c.boundingHeight.value := by
  induction i with
  | zero =>
    have low := movement_le_one (c := c)
    have none : strafes c 0 = 0 ∧ forwards c 0 = 0 := by
      unfold strafes forwards
      omega
    refine .inl ⟨by simp, ⟨?_, ?_, ?_, ?_⟩⟩
    · show c.stateOfMovement = (c.stateOfMovement + 0) % 2
      omega
    · rw [none.2]
      simp [state, Num.value]
    · rw [none.1]
      simp [state]
    · rw [if_pos none.1, state]
  | succ i ih =>
    rcases ih with ⟨before, reached⟩ | ⟨past, high⟩
    · by_cases alive : Alive c i
      · exact .inl ⟨fun j le => alive.mono (Nat.le_of_lt_succ le), (reached.step alive).2⟩
      · have high : ¬ (state c i).tdt.value < c.boundingHeight.value := by
          rw [reached.tdt]
          exact alive
        refine .inr ⟨fun later => alive (later.mono (Nat.le_succ i)), ?_⟩
        rw [state, FINISHED]
        simpa only [if_neg high] using high
    · refine .inr ⟨fun later => past (later.mono (Nat.le_succ i)), ?_⟩
      rw [state, FINISHED]
      simpa only [if_neg high] using high

theorem order_alive {i : ℕ} (alive : Alive c i) : order c i = move c i := by
  rcases state_reached i with ⟨-, reached⟩ | ⟨past, -⟩
  · exact (reached.step alive).1
  · exact absurd alive past

theorem order_done {i : ℕ} (past : ¬ Alive c i) : order c i = .done := by
  have high : ¬ (state c i).tdt.value < c.boundingHeight.value := by
    rcases state_reached i with ⟨-, reached⟩ | ⟨-, high⟩
    · rw [reached.tdt]
      exact past
    · exact high
  rw [order, FINISHED]
  simp only [if_neg high]

theorem move_strafe {i : ℕ} (strafe : (c.stateOfMovement + i) % 2 = 0) : (move c i).IsStrafe ∧ ¬ (move c i).IsForward := by
  rw [move, if_pos strafe]
  exact ⟨trivial, id⟩

theorem move_forward {i : ℕ} (forward : (c.stateOfMovement + i) % 2 ≠ 0) : (move c i).IsForward ∧ ¬ (move c i).IsStrafe := by
  rw [move, if_neg forward]
  exact ⟨trivial, id⟩

theorem order_eq_done {i : ℕ} : order c i = .done ↔ ¬ Alive c i := by
  refine ⟨fun done alive => ?_, order_done⟩
  rw [order_alive alive] at done
  by_cases strafe : (c.stateOfMovement + i) % 2 = 0
  · exact (done ▸ move_strafe strafe).1
  · exact (done ▸ move_forward strafe).1

theorem isStrafe_iff {i : ℕ} : (order c i).IsStrafe ↔ Alive c i ∧ (c.stateOfMovement + i) % 2 = 0 := by
  by_cases alive : Alive c i
  · rw [order_alive alive, and_iff_right alive]
    exact ⟨fun strafe => by_contra fun forward => (move_forward forward).2 strafe, fun strafe => (move_strafe strafe).1⟩
  · rw [order_done alive]
    exact iff_of_false id fun both => alive both.1

theorem isForward_iff {i : ℕ} : (order c i).IsForward ↔ Alive c i ∧ (c.stateOfMovement + i) % 2 ≠ 0 := by
  by_cases alive : Alive c i
  · rw [order_alive alive, and_iff_right alive]
    exact ⟨fun forward strafe => (move_strafe strafe).2 forward, fun forward => (move_forward forward).1⟩
  · rw [order_done alive]
    exact iff_of_false id fun both => alive both.1

/-- After finitely many events the height is reached. -/
theorem exists_end (c : Config) : ∃ n, ∀ i, ¬ Alive c i ↔ n ≤ i := by
  have reaches : ∃ n, ¬ Alive c n := by
    obtain ⟨n, high⟩ := Archimedean.arch c.boundingHeight.value c.distanceForward_pos
    refine ⟨2 * n, not_lt.mpr ?_⟩
    have many : n ≤ forwards c (2 * n) := by
      unfold forwards
      omega
    rw [nsmul_eq_mul] at high
    exact high.trans (mul_le_mul_of_nonneg_right (by exact_mod_cast many) c.distanceForward_pos.le)
  classical
  refine ⟨Nat.find reaches, fun i => ⟨fun past => Nat.find_min' reaches past, fun le alive => ?_⟩⟩
  exact Nat.find_spec reaches (alive.mono le)

/-! ### The way to the front -/

theorem ahead_succ (n : ℕ) : ahead c (n + 1) = ahead c n + (order c n).ahead := by
  rw [ahead, List.range_succ, List.map_append, List.sum_append]
  simp [ahead]

theorem ahead_alive {n : ℕ} (alive : ∀ j < n, Alive c j) : ahead c n = forwards c n * c.distanceForward.value := by
  induction n with
  | zero =>
    have low := movement_le_one (c := c)
    have none : forwards c 0 = 0 := by
      unfold forwards
      omega
    simp [ahead, none]
  | succ n ih =>
    rw [ahead_succ, ih fun j lt => alive j (lt.trans (Nat.lt_succ_self n)), order_alive (alive n (Nat.lt_succ_self n)), move]
    by_cases strafe : (c.stateOfMovement + n) % 2 = 0
    · rw [if_pos strafe, forwards_strafe strafe]
      simp [Strafe, Order.ahead]
    · rw [if_neg strafe, forwards_forward strafe, Order.ahead]
      push_cast
      ring

/-- The search stays in the box exactly when the step divides the height. -/
theorem box_iff : (∀ n, ahead c n ≤ c.boundingHeight.value) ↔ ∃ m : ℕ, c.boundingHeight.value = m * c.distanceForward.value := by
  obtain ⟨last, ends⟩ := exists_end c
  have before (j : ℕ) (lt : j < last) : Alive c j := by_contra fun past => absurd ((ends j).mp past) (not_le.mpr lt)
  constructor
  · intro box
    have high := not_lt.mp ((ends last).mpr le_rfl)
    have low := box last
    rw [ahead_alive before] at low
    exact ⟨forwards c last, le_antisymm high low⟩
  · rintro ⟨m, height⟩ n
    induction n with
    | zero => exact c.boundingHeight_pos.le
    | succ n ih =>
      by_cases alive : Alive c n
      · have fewer : forwards c n < m := by
          rw [Alive, height] at alive
          exact_mod_cast lt_of_mul_lt_mul_right alive c.distanceForward_pos.le
        have next : forwards c (n + 1) ≤ m := by
          unfold forwards at fewer ⊢
          omega
        rw [ahead_alive fun j lt => alive.mono (Nat.le_of_lt_succ lt), height]
        exact mul_le_mul_of_nonneg_right (by exact_mod_cast next) c.distanceForward_pos.le
      · rw [ahead_succ, order_done alive]
        simpa [Order.ahead] using ih

/-! ### The offset to the side -/

theorem offset_succ (n : ℕ) : offset c (n + 1) = offset c n + (order c n).aside := by
  rw [offset, List.range_succ, List.map_append, List.sum_append]
  simp [offset]

/-- The half of the width is not rounded when the width is a `float` or an even integer. -/
theorem half_exact {width : Num} (unrounded : ¬ ∃ n, width = .int n ∧ Odd n) (e : ℤ) :
    (((Num.int e).mul width).div (.int 2)).value = e * width.value / 2 := by
  cases width with
  | float x => simp [Num.mul, Num.div, Num.value]
  | int n =>
    obtain ⟨k, rfl⟩ := Int.not_odd_iff_even.mp fun odd => unrounded ⟨n, rfl, odd⟩
    have same : (e * (k + k)).fdiv 2 = e * k := by
      rw [show e * (k + k) = e * k * 2 by ring]
      exact Int.mul_fdiv_cancel _ (by decide)
    simp only [Num.mul, Num.div, Num.value, same]
    push_cast
    ring

theorem offset_alive (unrounded : ¬ ∃ n, c.boundingWidth = .int n ∧ Odd n) {n : ℕ} (alive : ∀ j < n, Alive c j) :
    offset c n = if strafes c n = 0 then 0 else c.strafeDirection * (-1) ^ strafes c n * c.boundingWidth.value / 2 := by
  induction n with
  | zero =>
    have none : strafes c 0 = 0 := by
      have low := movement_le_one (c := c)
      unfold strafes
      omega
    simp [offset, none]
  | succ n ih =>
    rw [offset_succ, ih fun j lt => alive j (lt.trans (Nat.lt_succ_self n)), order_alive (alive n (Nat.lt_succ_self n)), move]
    by_cases strafe : (c.stateOfMovement + n) % 2 = 0
    · rw [if_pos strafe, strafes_strafe strafe, if_neg (Nat.succ_ne_zero _), Strafe, Order.aside]
      by_cases none : strafes c n = 0
      · rw [if_pos none, if_pos none, half_exact unrounded, none]
        push_cast
        ring
      · rw [if_neg none, if_neg none, Num.value_div_one, Num.value_mul, pow_succ]
        simp only [Num.value]
        push_cast
        ring
    · rw [if_neg strafe, strafes_forward strafe]
      simp [Order.aside]

/-- The first strafe is the first order or the one after it. -/
theorem first_strafe (there : (order c c.stateOfMovement).IsStrafe) :
    offset c (c.stateOfMovement + 1) =
      (((Num.int (-c.strafeDirection)).mul c.boundingWidth).div (.int 2)).value := by
  have alive := (isStrafe_iff.mp there).1
  have even : (c.stateOfMovement + c.stateOfMovement) % 2 = 0 := by omega
  have none : strafes c c.stateOfMovement = 0 := by
    unfold strafes
    omega
  have nothing : offset c c.stateOfMovement = 0 := by
    rcases c.movement with zero | one
    · simp [zero, offset]
    · have forward : (c.stateOfMovement + 0) % 2 ≠ 0 := by omega
      rw [one, offset_succ, order_alive (alive.mono (Nat.zero_le _)), move, if_neg forward]
      simp [offset, Order.aside]
  rw [offset_succ, nothing, order_alive alive, move, if_pos even, none, if_pos rfl, Strafe, Order.aside]
  simp

/-- The half of an odd integer is none. -/
theorem half_odd {n e : ℤ} (odd : Odd n) :
    (((Num.int e).mul (.int n)).div (.int 2)).value ≠ (Num.int n).value / 2 ∧
      (((Num.int e).mul (.int n)).div (.int 2)).value ≠ -((Num.int n).value / 2) := by
  obtain ⟨k, rfl⟩ := odd
  simp only [Num.mul, Num.div, Num.value]
  generalize (e * (2 * k + 1)).fdiv 2 = z
  constructor
  · intro same
    have : (2 * z : ℚ) = 2 * k + 1 := by push_cast at same; linarith
    have : 2 * z = 2 * k + 1 := by exact_mod_cast this
    omega
  · intro same
    have : (2 * z : ℚ) = -(2 * k + 1) := by push_cast at same; linarith
    have : 2 * z = -(2 * k + 1) := by exact_mod_cast this
    omega

theorem strafes_of_wide (wide : ¬ (c.stateOfMovement = 1 ∧ c.boundingHeight.value = c.distanceForward.value))
    (height : ∃ m : ℕ, c.boundingHeight.value = m * c.distanceForward.value) : (order c c.stateOfMovement).IsStrafe := by
  refine isStrafe_iff.mpr ⟨?_, by omega⟩
  obtain ⟨m, height⟩ := height
  have positive := c.boundingHeight_pos
  have step := c.distanceForward_pos
  rcases c.movement with zero | one
  · rw [Alive, forwards, zero]
    simpa using positive
  · have several : 1 < m := by
      have some : m ≠ 0 := fun none => by simp [height, none] at positive
      have other : m ≠ 1 := fun same => wide ⟨one, by simpa [same] using height⟩
      omega
    rw [Alive, forwards, one, height]
    exact mul_lt_mul_of_pos_right (by exact_mod_cast several) step

/-! ### The whole -/

theorem side_of_unrounded (unrounded : ¬ ∃ n, c.boundingWidth = .int n ∧ Odd n) {i : ℕ} (strafe : (order c i).IsStrafe) :
    offset c (i + 1) = c.strafeDirection * (-1) ^ (strafes c i + 1) * c.boundingWidth.value / 2 := by
  obtain ⟨alive, even⟩ := isStrafe_iff.mp strafe
  rw [offset_alive unrounded fun j lt => alive.mono (Nat.le_of_lt_succ lt), strafes_strafe even, if_neg (Nat.succ_ne_zero _)]

theorem side_or (k : ℕ) (w : ℚ) : c.strafeDirection * (-1) ^ k * w / 2 = w / 2 ∨ c.strafeDirection * (-1) ^ k * w / 2 = -(w / 2) := by
  rcases c.direction with same | same <;> rcases neg_one_pow_eq_or ℚ k with even | odd
  · exact .inl (by rw [same, even]; simp)
  · exact .inr (by rw [same, odd]; push_cast; ring)
  · exact .inr (by rw [same, even]; push_cast; ring)
  · exact .inl (by rw [same, odd]; push_cast; ring)

theorem fits_of_right (right : Right c) : Fits c := by
  have height := box_iff.mp right.box
  refine ⟨height, ?_⟩
  rintro ⟨n, width, odd⟩
  by_contra wide
  have there := strafes_of_wide wide height
  have rounded := half_odd (e := -c.strafeDirection) odd
  rw [← width, ← first_strafe there] at rounded
  rcases right.side _ there with left | right
  · exact rounded.1 left
  · exact rounded.2 right

theorem right_of_fits (fits : Fits c) : Right c := by
  obtain ⟨height, width⟩ := fits
  -- Where there is a strafe at all the half of the width is not rounded.
  have unrounded {i : ℕ} (strafe : (order c i).IsStrafe) : ¬ ∃ n, c.boundingWidth = .int n ∧ Odd n := by
    intro odd
    obtain ⟨one, low⟩ := width odd
    obtain ⟨alive, even⟩ := isStrafe_iff.mp strafe
    have later : 1 ≤ i := by omega
    have first := alive.mono later
    rw [Alive, forwards, one, low] at first
    simp at first
  refine ⟨box_iff.mpr height, fun i strafe => ?_, fun i j lt first second between => ?_, fun i moves => ?_, ?_⟩
  · rw [side_of_unrounded (unrounded strafe) strafe]
    exact side_or _ _
  · obtain ⟨alive, even⟩ := isStrafe_iff.mp first
    obtain ⟨alive', even'⟩ := isStrafe_iff.mp second
    have next : j = i + 2 := by
      by_contra apart
      exact between (i + 2) (by omega) (by omega) (isStrafe_iff.mpr ⟨alive'.mono (by omega), by omega⟩)
    have count : strafes c j = strafes c i + 1 := by
      have low := movement_le_one (c := c)
      unfold strafes
      omega
    rw [side_of_unrounded (unrounded second) second, side_of_unrounded (unrounded first) first, count, pow_succ _ (_ + 1)]
    ring
  · have alive := not_not.mp (order_eq_done.not.mp moves)
    have before := alive.mono (Nat.le_succ i)
    rw [isStrafe_iff, isForward_iff, isForward_iff, isStrafe_iff]
    by_cases even : (c.stateOfMovement + i) % 2 = 0
    · exact .inl ⟨⟨before, even⟩, alive, by omega⟩
    · exact .inr ⟨⟨before, even⟩, alive, by omega⟩
  · obtain ⟨last, ends⟩ := exists_end c
    exact ⟨last, fun i => order_eq_done.trans (ends i)⟩

end

/-- A step of 3 in a box of height 4. -/
def highBox : Config where
  distanceForward := .int 3
  boundingWidth := .int 2
  boundingHeight := .int 4
  stateOfMovement := 0
  strafeDirection := -1
  distanceForward_pos := by decide
  boundingWidth_pos := by decide
  boundingHeight_pos := by decide
  movement := .inl rfl
  direction := .inr rfl

/-- A box that is 3 wide. -/
def wideBox : Config where
  distanceForward := .int 1
  boundingWidth := .int 3
  boundingHeight := .int 4
  stateOfMovement := 0
  strafeDirection := -1
  distanceForward_pos := by decide
  boundingWidth_pos := by decide
  boundingHeight_pos := by decide
  movement := .inl rfl
  direction := .inr rfl

end Tortuga.ZigZags
