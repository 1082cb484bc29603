import Tortuga.Valves
import Tortuga.PneumaticsRuns

/-!
The interlock of the pneumatics: no pair fills and voids at once, the two sides of a piston
do not fill together, and every valve that a piston command opens is closed again.
-/
namespace Tortuga.Interlock
open Tortuga.Programs Tortuga.Bitmaps Tortuga.BusCodes Tortuga.DelayQueue Tortuga.Pneumatics
open Tortuga.PneumaticsQueue Tortuga.PneumaticsRuns Tortuga.Valves
set_option linter.unusedSimpArgs false

/-! ### Plans -/

/-- What every pair will show after any number of ticks. -/
abbrev Plan := ℕ → ℕ → PairCommand

def Plan.add (F : Plan) (cmd : PairCommand) (pair count : ℕ) : Plan :=
  fun p k => if p = pair ∧ count ≤ k then cmd else F p k

def Plan.tick (F : Plan) : Plan := fun p k => F p (k + 1)

/-- The two sides of a piston. -/
def Partners (x y : ℕ) : Prop := ∃ piston, pistonPairs piston = some (x, y) ∨ pistonPairs piston = some (y, x)

/-- While a side of a piston fills the other does not, neither then nor from the next tick on
    as long as the first does. -/
def Interlocked (F : Plan) : Prop :=
  ∀ x y, Partners x y → ∀ k, F x k = .fill → F y k ≠ .fill ∧ F y (k + 1) ≠ .fill

/-- A pair is off from `t` ticks on. -/
def Settled (F : Plan) (t pair : ℕ) : Prop := ∀ k, t ≤ k → F pair k = .off

/-- A pair does not fill from `t` ticks on. -/
def Shut (F : Plan) (t pair : ℕ) : Prop := ∀ k, t ≤ k → F pair k ≠ .fill

/-- The other side of the piston of a pair. -/
def other (x : ℕ) : ℕ := if x % 4 < 2 then x + 2 else x - 2

theorem Partners.symm {x y : ℕ} (partners : Partners x y) : Partners y x := by
  obtain ⟨piston, found⟩ := partners
  exact ⟨piston, found.symm⟩

theorem Partners.eq_other {x y : ℕ} (partners : Partners x y) : y = other x ∧ x < 12 := by
  obtain ⟨piston, found⟩ := partners
  unfold pistonPairs at found
  split at found
  case h_7 => simp at found
  all_goals
    rcases found with found | found
    · obtain ⟨rfl, rfl⟩ := Prod.mk.inj (Option.some_inj.mp found)
      decide
    · obtain ⟨rfl, rfl⟩ := Prod.mk.inj (Option.some_inj.mp found)
      decide

theorem Partners.ne {x y : ℕ} (partners : Partners x y) : x ≠ y := by
  rw [partners.eq_other.1, other]
  split <;> omega

section
variable {F : Plan} {x y pair count t : ℕ} {cmd : PairCommand}

theorem Plan.add_self {k : ℕ} (later : count ≤ k) : F.add cmd pair count pair k = cmd := if_pos ⟨rfl, later⟩

theorem Plan.add_before {p k : ℕ} (before : k < count) : F.add cmd pair count p k = F p k := if_neg (by omega)

theorem Plan.add_other {p k : ℕ} (different : p ≠ pair) : F.add cmd pair count p k = F p k :=
  if_neg (fun both => different both.1)

theorem Interlocked.tick (locked : Interlocked F) : Interlocked F.tick :=
  fun x y partners k => locked x y partners (k + 1)

theorem Settled.tick (settled : Settled F t pair) : Settled F.tick (t - 1) pair :=
  fun k later => settled (k + 1) (by omega)

theorem Settled.later {t' : ℕ} (settled : Settled F t pair) (later : t ≤ t') : Settled F t' pair :=
  fun k after => settled k (by omega)

theorem Settled.shut (settled : Settled F t pair) : Shut F t pair := by
  intro k later
  rw [settled k later]
  decide

theorem Shut.tick (shut : Shut F t pair) : Shut F.tick t pair := fun k later => shut (k + 1) (by omega)

/-- A command that does not fill does no harm. -/
theorem Interlocked.add (locked : Interlocked F) (quiet : cmd ≠ .fill) : Interlocked (F.add cmd pair count) := by
  have fewer (p k : ℕ) (fills : F.add cmd pair count p k = .fill) : F p k = .fill := by
    rw [Plan.add] at fills
    split at fills
    · exact absurd fills quiet
    · exact fills
  intro x y partners k fills
  obtain ⟨now, next⟩ := locked x y partners k (fewer x k fills)
  exact ⟨fun again => now (fewer y k again), fun again => next (fewer y (k + 1) again)⟩

/-- A side may fill when the other has stopped one tick before. -/
theorem Interlocked.add_fill (locked : Interlocked F) (partners : Partners x y) (shut : Shut F t x) :
    Interlocked (F.add .fill y (t + 1)) := by
  have apart := partners.ne
  intro u v pair k fills
  by_cases filled : u = y
  · subst filled
    have first : v = x := by rw [pair.eq_other.1, partners.symm.eq_other.1]
    subst first
    rw [Plan.add_other apart, Plan.add_other apart]
    by_cases late : t + 1 ≤ k
    · exact ⟨shut k (by omega), shut (k + 1) (by omega)⟩
    · rw [Plan.add_before (by omega)] at fills
      exact locked u v pair k fills
  · rw [Plan.add_other filled] at fills
    by_cases second : v = y
    · subst second
      have first : u = x := by rw [pair.symm.eq_other.1, partners.symm.eq_other.1]
      subst first
      have early : k < t := by
        by_contra late
        exact shut k (by omega) fills
      rw [Plan.add_before (by omega), Plan.add_before (by omega)]
      exact locked u v pair k fills
    · rw [Plan.add_other second, Plan.add_other second]
      exact locked u v pair k fills

theorem Settled.add_other {p : ℕ} (settled : Settled F t p) (different : p ≠ pair) : Settled (F.add cmd pair count) t p := by
  intro k later
  rw [Plan.add_other different]
  exact settled k later

theorem Settled.add_off (F : Plan) (pair count : ℕ) : Settled (F.add .off pair count) count pair :=
  fun _ later => Plan.add_self later

theorem Shut.add_other {p : ℕ} (shut : Shut F t p) (different : p ≠ pair) : Shut (F.add cmd pair count) t p := by
  intro k later
  rw [Plan.add_other different]
  exact shut k later

end

/-! ### The steps of a piston -/

/-- The longest delay. -/
abbrev longest : ℕ := 551

/-- The sides of the pistons do not fill together, `busy` pairs apart all are off in the end,
    and each pair of the list does not fill from its count on. -/
structure Steps (busy : List ℕ) (shut : List (ℕ × ℕ)) (F : Plan) : Prop where
  locked : Interlocked F
  settled : ∀ pair, pair ∉ busy → Settled F longest pair
  shut : ∀ x ∈ shut, Shut F x.2 x.1

/-- Between two commands. -/
abbrev Rest : Plan → Prop := Steps [] []

variable {busy : List ℕ} {shut : List (ℕ × ℕ)} {F : Plan} {first second : ℕ}

theorem Steps.tick (steps : Steps busy shut F) : Steps busy shut F.tick where
  locked := steps.locked.tick
  settled pair free := (steps.settled pair free).tick.later (by decide)
  shut x member := (steps.shut x member).tick

theorem Rest.void (rest : Rest F) (first : ℕ) : Steps [first] [(first, 1)] (F.add .void first 1) where
  locked := rest.locked.add (by decide)
  settled pair free := (rest.settled pair List.not_mem_nil).add_other (by simpa using free)
  shut x member := by
    obtain rfl : x = (first, 1) := by simpa using member
    intro k later
    rw [Plan.add_self later]
    decide

theorem Steps.fill (partners : Partners first second) (steps : Steps [first] [(first, 1)] F) :
    Steps [first, second] [(first, 1)] (F.add .fill second 2) where
  locked := steps.locked.add_fill partners (steps.shut (first, 1) (by simp))
  settled pair free := by
    simp only [List.mem_cons, List.not_mem_nil, or_false, not_or] at free
    exact (steps.settled pair (by simpa using free.1)).add_other free.2
  shut x member := by
    obtain rfl : x = (first, 1) := by simpa using member
    exact (steps.shut (first, 1) (by simp)).add_other partners.ne

theorem Steps.off (partners : Partners first second) (steps : Steps [first, second] [(first, 1)] F) :
    Steps [first] [(second, 500)] (F.add .off second 500) where
  locked := steps.locked.add (by decide)
  settled pair free := by
    by_cases same : pair = second
    · subst same
      exact (Settled.add_off F pair 500).later (by decide)
    · exact (steps.settled pair (by simpa [same] using free)).add_other same
  shut x member := by
    obtain rfl : x = (second, 500) := by simpa using member
    exact (Settled.add_off F second 500).shut

theorem Steps.fillBack (partners : Partners first second) (steps : Steps [first] [(second, 500)] F) :
    Steps [first] [] (F.add .fill first 501) where
  locked := steps.locked.add_fill partners.symm (steps.shut (second, 500) (by simp))
  settled pair free := (steps.settled pair free).add_other (by simpa using free)
  shut x member := absurd member List.not_mem_nil

theorem Steps.offBack (steps : Steps [first] [] F) : Rest (F.add .off first 551) where
  locked := steps.locked.add (by decide)
  settled pair _ := by
    by_cases same : pair = first
    · subst same
      exact Settled.add_off F pair 551
    · exact (steps.settled pair (by simpa using same)).add_other same
  shut x member := absurd member List.not_mem_nil

end Tortuga.Interlock
