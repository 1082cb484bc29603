import Mathlib.Data.Int.Notation
import Mathlib.Tactic.Cases
import Mathlib.Tactic.SplitIfs

/-!
Time values (`TimeVal` of the core package): seconds and microseconds, their carry and borrow
by truncating division, and their order. The seconds do not overflow.
-/
namespace Tortuga.TimeValues
set_option linter.unusedSimpArgs false

/-! ### The class -/

/-- `timeval_`. -/
structure TimeVal where
  tvSec : ℤ
  tvUsec : ℤ
  deriving DecidableEq, Repr

abbrev usecPerSec : ℤ := 1000000

/-- `time_val_add`. -/
def timeValAdd (a : TimeVal) (usec : ℤ) : TimeVal :=
  let u := usec + a.tvUsec
  if u < 0 then ⟨a.tvSec + (-1 + u.tdiv usecPerSec), usecPerSec + u.tmod usecPerSec⟩
  else ⟨a.tvSec + u.tdiv usecPerSec, u.tmod usecPerSec⟩

namespace TimeVal

/-- `TimeVal(seconds, microseconds)`. -/
def ofPair (seconds microseconds : ℤ) : TimeVal := timeValAdd ⟨seconds, 0⟩ microseconds

def addMicros (a : TimeVal) (microseconds : ℤ) : TimeVal := timeValAdd a microseconds

def addPair (a : TimeVal) (seconds microseconds : ℤ) : TimeVal :=
  timeValAdd { a with tvSec := a.tvSec + seconds } microseconds

def add (a other : TimeVal) : TimeVal := timeValAdd { a with tvSec := a.tvSec + other.tvSec } other.tvUsec

def subtract (a other : TimeVal) : TimeVal :=
  let a := { a with tvSec := a.tvSec - other.tvSec }
  let a := if a.tvUsec < other.tvUsec then ⟨a.tvSec - 1, a.tvUsec + usecPerSec⟩ else a
  { a with tvUsec := a.tvUsec - other.tvUsec }

def difference (a other : TimeVal) : ℤ := (a.tvSec - other.tvSec) * usecPerSec + (a.tvUsec - other.tvUsec)

def equal (a other : TimeVal) : Bool := a.tvSec = other.tvSec ∧ a.tvUsec = other.tvUsec

def less (a other : TimeVal) : Bool :=
  if a.tvSec < other.tvSec then true else if a.tvSec = other.tvSec ∧ a.tvUsec < other.tvUsec then true else false

def greater (a other : TimeVal) : Bool :=
  if a.tvSec > other.tvSec then true else if a.tvSec = other.tvSec ∧ a.tvUsec > other.tvUsec then true else false

def notEqual (a other : TimeVal) : Bool := !a.equal other

def lessEqual (a other : TimeVal) : Bool := a.equal other || a.less other

def greaterEqual (a other : TimeVal) : Bool := a.equal other || a.greater other

/-! ### Microseconds in all -/

/-- The time in microseconds. -/
def total (a : TimeVal) : ℤ := a.tvSec * usecPerSec + a.tvUsec

/-- The microseconds are less than a second. -/
def Normal (a : TimeVal) : Prop := 0 ≤ a.tvUsec ∧ a.tvUsec < usecPerSec

end TimeVal

open TimeVal

variable {a b : TimeVal}

/-- A quotient and a remainder, as the division of C gives them. -/
theorem division (u : ℤ) : u.tdiv usecPerSec * usecPerSec + u.tmod usecPerSec = u ∧
    (u < 0 → -usecPerSec < u.tmod usecPerSec ∧ u.tmod usecPerSec ≤ 0) ∧
    (0 ≤ u → 0 ≤ u.tmod usecPerSec ∧ u.tmod usecPerSec < usecPerSec) := by
  refine ⟨Int.tdiv_mul_add_tmod u usecPerSec, fun negative => ⟨Int.lt_tmod_of_pos u (by decide), ?_⟩, fun nonneg => ?_⟩
  · have opposite := Int.tmod_nonneg usecPerSec (show 0 ≤ -u by omega)
    rw [Int.neg_tmod] at opposite
    omega
  · exact ⟨Int.tmod_nonneg usecPerSec nonneg, Int.tmod_lt_of_pos u (by decide)⟩

/-- Carry and borrow lose nothing. -/
theorem timeValAdd_total (a : TimeVal) (usec : ℤ) : (timeValAdd a usec).total = a.total + usec := by
  have whole := (division (usec + a.tvUsec)).1
  unfold timeValAdd TimeVal.total
  simp only [usecPerSec] at whole ⊢
  split
  · dsimp only
    omega
  · dsimp only
    omega

/-- The microseconds are not more than a second. -/
def Bounded (a : TimeVal) : Prop := 0 ≤ a.tvUsec ∧ a.tvUsec ≤ usecPerSec

theorem timeValAdd_bounded (a : TimeVal) (usec : ℤ) : Bounded (timeValAdd a usec) := by
  obtain ⟨-, below, above⟩ := division (usec + a.tvUsec)
  unfold timeValAdd Bounded
  simp only [usecPerSec] at below above ⊢
  split
  case isTrue negative =>
    have low := below negative
    dsimp only
    omega
  case isFalse nonneg =>
    have low := above (by omega)
    dsimp only
    omega

/-- The microseconds that are added take away seconds and leave no rest. -/
def Slips (a : TimeVal) (usec : ℤ) : Prop := usec + a.tvUsec < 0 ∧ usecPerSec ∣ usec + a.tvUsec

theorem timeValAdd_normal (a : TimeVal) (usec : ℤ) : (timeValAdd a usec).Normal ↔ ¬ Slips a usec := by
  obtain ⟨-, below, above⟩ := division (usec + a.tvUsec)
  have rest : usecPerSec ∣ usec + a.tvUsec ↔ (usec + a.tvUsec).tmod usecPerSec = 0 := Int.dvd_iff_tmod_eq_zero
  unfold timeValAdd TimeVal.Normal Slips
  rw [rest]
  simp only [usecPerSec] at below above ⊢
  split
  case isTrue negative =>
    have low := below negative
    dsimp only
    omega
  case isFalse nonneg =>
    have low := above (by omega)
    dsimp only
    omega

theorem add_total (a b : TimeVal) : (a.add b).total = a.total + b.total := by
  rw [TimeVal.add, timeValAdd_total]
  simp only [TimeVal.total, usecPerSec]
  omega

theorem addPair_total (a : TimeVal) (seconds microseconds : ℤ) :
    (a.addPair seconds microseconds).total = a.total + (seconds * usecPerSec + microseconds) := by
  rw [TimeVal.addPair, timeValAdd_total]
  simp only [TimeVal.total, usecPerSec]
  omega

theorem ofPair_total (seconds microseconds : ℤ) : (ofPair seconds microseconds).total = seconds * usecPerSec + microseconds := by
  rw [TimeVal.ofPair, timeValAdd_total]
  simp only [TimeVal.total, usecPerSec]
  omega

theorem subtract_eq (a b : TimeVal) : a.subtract b = if a.tvUsec < b.tvUsec then
    ⟨a.tvSec - b.tvSec - 1, a.tvUsec + usecPerSec - b.tvUsec⟩ else ⟨a.tvSec - b.tvSec, a.tvUsec - b.tvUsec⟩ := by
  unfold TimeVal.subtract
  dsimp only
  split <;> rfl

theorem subtract_total (a b : TimeVal) : (a.subtract b).total = a.total - b.total := by
  rw [subtract_eq]
  simp only [TimeVal.total, usecPerSec]
  split
  · dsimp only
    omega
  · dsimp only
    omega

theorem difference_eq (a b : TimeVal) : a.difference b = a.total - b.total := by
  simp only [TimeVal.difference, TimeVal.total, usecPerSec]
  omega

theorem add_normal (boundedA : Bounded a) (boundedB : Bounded b) : (a.add b).Normal := by
  refine (timeValAdd_normal _ _).mpr fun slips => ?_
  have negative := slips.1
  simp only [Bounded] at boundedA boundedB
  dsimp only at negative
  omega

theorem subtract_normal (normalA : a.Normal) (normalB : b.Normal) : (a.subtract b).Normal := by
  rw [subtract_eq]
  simp only [TimeVal.Normal, usecPerSec] at normalA normalB ⊢
  split
  · dsimp only
    omega
  · dsimp only
    omega

/-! ### The order -/

section
variable (normalA : a.Normal) (normalB : b.Normal)
include normalA normalB

/-- Normal time values with the same microseconds in all are the same. -/
theorem eq_of_total (same : a.total = b.total) : a = b := by
  obtain ⟨secA, usecA⟩ := a
  obtain ⟨secB, usecB⟩ := b
  simp only [TimeVal.Normal, TimeVal.total, usecPerSec] at normalA normalB same
  rw [TimeVal.mk.injEq]
  omega

theorem equal_iff : a.equal b = true ↔ a.total = b.total := by
  rw [TimeVal.equal, decide_eq_true_iff]
  simp only [TimeVal.Normal, TimeVal.total, usecPerSec] at normalA normalB ⊢
  omega

theorem less_iff : a.less b = true ↔ a.total < b.total := by
  simp only [TimeVal.Normal, TimeVal.total, TimeVal.less, usecPerSec] at normalA normalB ⊢
  split_ifs <;> simp <;> omega

theorem greater_iff : a.greater b = true ↔ b.total < a.total := by
  simp only [TimeVal.Normal, TimeVal.total, TimeVal.greater, usecPerSec] at normalA normalB ⊢
  split_ifs <;> simp <;> omega

end

/-! ### Values that are built -/

/-- How a time value is built: by the constructor from two numbers and by the operators. -/
inductive Built where
  | pair (seconds microseconds : ℤ)
  | plus (a b : Built)
  | minus (a b : Built)
  | plusMicros (a : Built) (microseconds : ℤ)
  | minusMicros (a : Built) (microseconds : ℤ)
  | plusPair (a : Built) (seconds microseconds : ℤ)

namespace Built

def value : Built → TimeVal
  | pair seconds microseconds => ofPair seconds microseconds
  | plus a b => a.value.add b.value
  | minus a b => a.value.subtract b.value
  | plusMicros a microseconds => a.value.addMicros microseconds
  | minusMicros a microseconds => a.value.addMicros (-microseconds)
  | plusPair a seconds microseconds => a.value.addPair seconds microseconds

/-- The microseconds that it stands for. -/
def exact : Built → ℤ
  | pair seconds microseconds => seconds * usecPerSec + microseconds
  | plus a b => a.exact + b.exact
  | minus a b => a.exact - b.exact
  | plusMicros a microseconds => a.exact + microseconds
  | minusMicros a microseconds => a.exact - microseconds
  | plusPair a seconds microseconds => a.exact + (seconds * usecPerSec + microseconds)

/-- A value is in normal form and stands for the microseconds given. -/
def Faithful (a : TimeVal) (micros : ℤ) : Prop := a.Normal ∧ a.total = micros

/-- Every value on the way is as it should be. -/
def Kept : Built → Prop
  | pair s u => Faithful (pair s u).value (pair s u).exact
  | plus a b => a.Kept ∧ b.Kept ∧ Faithful (plus a b).value (plus a b).exact
  | minus a b => a.Kept ∧ b.Kept ∧ Faithful (minus a b).value (minus a b).exact
  | plusMicros a u => a.Kept ∧ Faithful (plusMicros a u).value (plusMicros a u).exact
  | minusMicros a u => a.Kept ∧ Faithful (minusMicros a u).value (minusMicros a u).exact
  | plusPair a s u => a.Kept ∧ Faithful (plusPair a s u).value (plusPair a s u).exact

/-- Microseconds for a time with `micros` in all do not come to a negative multiple of a second together
    with its own. -/
def Fits (micros u : ℤ) : Prop := ¬ (u + micros % usecPerSec < 0 ∧ usecPerSec ∣ u + micros % usecPerSec)

/-- All microseconds fit where they are added. -/
def AllFit : Built → Prop
  | pair _ u => Fits 0 u
  | plus a b | minus a b => a.AllFit ∧ b.AllFit
  | plusMicros a u => a.AllFit ∧ Fits a.exact u
  | minusMicros a u => a.AllFit ∧ Fits a.exact (-u)
  | plusPair a _ u => a.AllFit ∧ Fits a.exact u

end Built

open Built

theorem tvUsec_eq {micros : ℤ} (faithful : Faithful a micros) : a.tvUsec = micros % usecPerSec := by
  obtain ⟨normal, rfl⟩ := faithful
  simp only [TimeVal.Normal, TimeVal.total, usecPerSec] at normal ⊢
  omega

theorem fits_iff {micros : ℤ} (faithful : Faithful a micros) (u : ℤ) : Fits micros u ↔ ¬ Slips a u := by
  rw [Fits, Slips, tvUsec_eq faithful]

theorem Normal.bounded (normal : a.Normal) : Bounded a := ⟨normal.1, Int.le_of_lt normal.2⟩

/-- What is kept is faithful in the end. -/
theorem Kept.faithful {e : Built} (kept : e.Kept) : Faithful e.value e.exact := by
  cases e with
  | pair s u => exact kept
  | plus a b | minus a b => exact kept.2.2
  | plusMicros a u | minusMicros a u | plusPair a s u => exact kept.2

/-- A step that adds microseconds to a value that is as it should be. -/
theorem step_iff {t c : TimeVal} {micros m u : ℤ} (exact : t.total = micros) (normal : t.Normal ↔ ¬ Slips c u)
    (faithful : Faithful c m) : Faithful t micros ↔ Fits m u := by
  rw [fits_iff faithful, ← normal]
  exact ⟨fun both => both.1, fun first => ⟨first, exact⟩⟩

theorem total_of {e : Built} (kept : e.Kept) : e.value.total = e.exact := (Kept.faithful kept).2

/-- Exactly the values whose microseconds all fit are as they should be, with all values on the way. -/
theorem kept_iff (e : Built) : e.Kept ↔ e.AllFit := by
  induction e with
  | pair s u =>
    have start : Faithful ⟨0, 0⟩ 0 := ⟨⟨Int.le_refl 0, by decide⟩, rfl⟩
    have normal : (ofPair s u).Normal ↔ ¬ Slips ⟨0, 0⟩ u := timeValAdd_normal ⟨s, 0⟩ u
    exact step_iff (ofPair_total s u) normal start
  | plus a b ihA ihB =>
    rw [Built.Kept, Built.AllFit, ← ihA, ← ihB]
    refine ⟨fun kept => ⟨kept.1, kept.2.1⟩, fun kept => ⟨kept.1, kept.2, ?_, ?_⟩⟩
    · exact add_normal (Normal.bounded (Kept.faithful kept.1).1) (Normal.bounded (Kept.faithful kept.2).1)
    · rw [Built.value, add_total, total_of kept.1, total_of kept.2]
      rfl
  | minus a b ihA ihB =>
    rw [Built.Kept, Built.AllFit, ← ihA, ← ihB]
    refine ⟨fun kept => ⟨kept.1, kept.2.1⟩, fun kept => ⟨kept.1, kept.2, ?_, ?_⟩⟩
    · exact subtract_normal (Kept.faithful kept.1).1 (Kept.faithful kept.2).1
    · rw [Built.value, subtract_total, total_of kept.1, total_of kept.2]
      rfl
  | plusMicros a u ih =>
    rw [Built.Kept, Built.AllFit, ← ih]
    refine and_congr_right fun kept => step_iff ?_ (timeValAdd_normal a.value u) (Kept.faithful kept)
    exact (timeValAdd_total a.value u).trans (by rw [total_of kept]; rfl)
  | minusMicros a u ih =>
    rw [Built.Kept, Built.AllFit, ← ih]
    refine and_congr_right fun kept => step_iff ?_ (timeValAdd_normal a.value (-u)) (Kept.faithful kept)
    exact (timeValAdd_total a.value (-u)).trans (by rw [total_of kept]; rfl)
  | plusPair a s u ih =>
    rw [Built.Kept, Built.AllFit, ← ih]
    have normal : (a.value.addPair s u).Normal ↔ ¬ Slips a.value u := timeValAdd_normal _ u
    refine and_congr_right fun kept => step_iff ?_ normal (Kept.faithful kept)
    exact (addPair_total a.value s u).trans (by rw [total_of kept]; rfl)

/-! ### The laws -/

/-- The laws for two time values, with the comparisons by the sign of the difference. -/
structure Laws (a b : TimeVal) : Prop where
  cancel : (a.add b).subtract b = a
  less : a.less b = true ↔ (a.subtract b).total < 0
  equal : a.equal b = true ↔ (a.subtract b).total = 0
  greater : a.greater b = true ↔ 0 < (a.subtract b).total
  lessEqual : a.lessEqual b = true ↔ (a.subtract b).total ≤ 0
  greaterEqual : a.greaterEqual b = true ↔ 0 ≤ (a.subtract b).total
  notEqual : a.notEqual b = true ↔ (a.subtract b).total ≠ 0
  difference : a.difference b = (a.subtract b).total

theorem laws_of_normal (normalA : a.Normal) (normalB : b.Normal) : Laws a b := by
  have sum := add_normal (Normal.bounded normalA) (Normal.bounded normalB)
  have less : a.less b = true ↔ (a.subtract b).total < 0 := by
    rw [less_iff normalA normalB, subtract_total]
    omega
  have equal : a.equal b = true ↔ (a.subtract b).total = 0 := by
    rw [equal_iff normalA normalB, subtract_total]
    omega
  have greater : a.greater b = true ↔ 0 < (a.subtract b).total := by
    rw [greater_iff normalA normalB, subtract_total]
    omega
  refine ⟨?_, less, equal, greater, ?_, ?_, ?_, ?_⟩
  · refine eq_of_total (subtract_normal sum normalB) normalA ?_
    rw [subtract_total, add_total]
    omega
  · rw [TimeVal.lessEqual, Bool.or_eq_true, equal, less]
    omega
  · rw [TimeVal.greaterEqual, Bool.or_eq_true, equal, greater]
    omega
  · rw [TimeVal.notEqual, Bool.not_eq_true', ← Bool.not_eq_true, equal]
  · rw [difference_eq, subtract_total]

/-- For two time values, however built: all values on the way, their sum and their difference are in normal form
    and exact, and the laws hold, if and only if microseconds never come to a negative multiple of a second. -/
theorem timeVal_laws (e f : Built) :
    ((plus e f).Kept ∧ (minus e f).Kept ∧ Laws e.value f.value) ↔ e.AllFit ∧ f.AllFit := by
  constructor
  · rintro ⟨sum, -, -⟩
    exact ⟨(kept_iff e).mp sum.1, (kept_iff f).mp sum.2.1⟩
  · intro fit
    have sum : (plus e f).Kept := (kept_iff _).mpr fit
    exact ⟨sum, (kept_iff _).mpr fit, laws_of_normal (Kept.faithful sum.1).1 (Kept.faithful sum.2.1).1⟩

/-- A million microseconds less than nothing: the microseconds are a whole second, and the value is not equal to
    minus one second. -/
theorem pair_slips : ¬ (Built.pair 0 (-1000000)).value.Normal ∧
    (Built.pair 0 (-1000000)).exact = (Built.pair (-1) 0).exact ∧
    (Built.pair 0 (-1000000)).value.equal (Built.pair (-1) 0).value = false := by
  refine ⟨fun normal => absurd normal.2 (by decide), by decide, by decide⟩

end Tortuga.TimeValues
