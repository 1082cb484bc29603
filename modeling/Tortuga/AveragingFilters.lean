import Tortuga.Rings
import Tortuga.SlidingWindows
import Mathlib.Algebra.BigOperators.Group.List.Basic
import Mathlib.Algebra.Field.Basic
import Mathlib.Algebra.CharZero.Defs
import Mathlib.Data.List.Induction
import Mathlib.Tactic.LinearCombination
import Mathlib.Tactic.NormNum
import Mathlib.Algebra.Order.Field.Rat

/-!
The running average of the last values (`AveragingFilter.h`), in exact arithmetic, over any calls.
-/
namespace Tortuga.AveragingFilters
open Tortuga.Rings Tortuga.SlidingWindows

/-- A ring whose slots are all the same. -/
theorem window_const {α : Type} (v : α) (n start k : ℕ) : window (fun _ => v) n start k = List.replicate k v := by
  induction k generalizing start with
  | zero => rfl
  | succ k ih => rw [window_succ, ih, List.replicate_succ]

section
variable {T : Type} [Field T]

/-- The slots of `array` from zero on; `maxSize` is `SIZE`. -/
structure AveragingFilter (T : Type) where
  size : ℕ
  start : ℕ
  total : T
  array : ℕ → T

namespace AveragingFilter

/-- The constructor without arguments. -/
def new : AveragingFilter T := ⟨0, 0, 0, fun _ => 0⟩

/-- The constructor with a value for all slots. -/
def newWith (initialValue : T) : AveragingFilter T := ⟨0, 0, initialValue, fun _ => initialValue⟩

def addValue (SIZE : ℕ) (filter : AveragingFilter T) (newValue : T) : AveragingFilter T :=
  { size := if filter.size + 1 > SIZE then SIZE else filter.size + 1
    start := if filter.start + 1 = SIZE then 0 else filter.start + 1
    total := filter.total - filter.array filter.start + newValue
    array := Function.update filter.array filter.start newValue }

def getValue (SIZE : ℕ) (filter : AveragingFilter T) : T :=
  if filter.size < SIZE then filter.total / filter.size else filter.total / SIZE

def getSize (filter : AveragingFilter T) : ℕ := filter.size

def clear (filter : AveragingFilter T) : AveragingFilter T := { filter with size := 0 }

end AveragingFilter

/-- How a filter is made. -/
inductive Constructor (T : Type)
  | plain
  | valued (initialValue : T)

def Constructor.value : Constructor T → T
  | .plain => 0
  | .valued initialValue => initialValue

def Constructor.make : Constructor T → AveragingFilter T
  | .plain => .new
  | .valued initialValue => .newWith initialValue

inductive Call (T : Type)
  | addValue (newValue : T)
  | clear

def next (SIZE : ℕ) (filter : AveragingFilter T) : Call T → AveragingFilter T
  | .addValue newValue => filter.addValue SIZE newValue
  | .clear => filter.clear

def run (SIZE : ℕ) (constructor : Constructor T) (calls : List (Call T)) : AveragingFilter T :=
  calls.foldl (next SIZE) constructor.make

/-! ### What has been stored -/

/-- The values stored before the last `clear` (the contents that the constructor leaves come first), and since then. -/
structure History (T : Type) where
  before : List T
  recent : List T

def History.next (h : History T) : Call T → History T
  | .addValue newValue => { h with recent := h.recent ++ [newValue] }
  | .clear => { before := h.before ++ h.recent, recent := [] }

def history (SIZE : ℕ) (constructor : Constructor T) (calls : List (Call T)) : History T :=
  calls.foldl History.next ⟨List.replicate SIZE constructor.value, []⟩

def History.contents (h : History T) : List T := h.before ++ h.recent

/-- The filter gives the mean of the last values since the last `clear`, and their number. -/
def Correct (SIZE : ℕ) (filter : AveragingFilter T) (recent : List T) : Prop :=
  filter.getValue SIZE = (lastOf SIZE recent).sum / (lastOf SIZE recent).length ∧
    filter.getSize = min recent.length SIZE

variable {SIZE : ℕ} {constructor : Constructor T} {filter : AveragingFilter T} {h : History T}

/-! ### What the fields are -/

/-- The slots hold the last values, from `start` on, and the total is theirs up to what the constructor left out. -/
structure Represents (SIZE : ℕ) (constructor : Constructor T) (filter : AveragingFilter T) (h : History T) : Prop where
  size : filter.size = min h.recent.length SIZE
  start : filter.start < SIZE
  whole : SIZE ≤ h.contents.length
  slots : window filter.array SIZE filter.start SIZE = lastOf SIZE h.contents
  total : filter.total = (lastOf SIZE h.contents).sum - (SIZE - 1) * constructor.value

theorem represents_make (positive : 0 < SIZE) :
    Represents SIZE constructor constructor.make ⟨List.replicate SIZE constructor.value, []⟩ := by
  have same : constructor.make = .newWith constructor.value := by
    cases constructor <;> rfl
  have last : lastOf SIZE (List.replicate SIZE constructor.value ++ []) = List.replicate SIZE constructor.value := by
    rw [List.append_nil]
    exact lastOf_short (by simp)
  rw [same]
  refine ⟨by simp [AveragingFilter.newWith], positive, by simp [History.contents], ?_, ?_⟩
  · rw [History.contents, last]
    exact window_const ..
  · rw [History.contents, last, List.sum_replicate, nsmul_eq_mul, AveragingFilter.newWith]
    linear_combination

theorem Represents.addValue (represents : Represents SIZE constructor filter h) (positive : 0 < SIZE) (v : T) :
    Represents SIZE constructor (filter.addValue SIZE v) (h.next (.addValue v)) := by
  obtain ⟨size, start, whole, slots, total⟩ := represents
  have contents : (h.next (.addValue v)).contents = h.contents ++ [v] := (List.append_assoc ..).symm
  obtain ⟨k, rfl⟩ : ∃ k, SIZE = k + 1 := ⟨SIZE - 1, by omega⟩
  -- the first of the window is the oldest value, and the new one takes its slot
  have first : filter.array filter.start :: window filter.array (k + 1) (filter.start + 1) k = lastOf (k + 1) h.contents := by
    rw [← slots, window_succ, Nat.mod_eq_of_lt start]
  have last : lastOf (k + 1) (h.contents ++ [v]) = window filter.array (k + 1) (filter.start + 1) k ++ [v] := by
    rw [lastOf_snoc whole positive, ← first, List.tail_cons]
  have place : (filter.start + 1 + k) % (k + 1) = filter.start := by
    rw [Nat.add_assoc, Nat.add_comm 1 k, Nat.add_mod_right, Nat.mod_eq_of_lt start]
  have turn : (if filter.start + 1 = k + 1 then 0 else filter.start + 1) % (k + 1) = (filter.start + 1) % (k + 1) := by
    split_ifs with past
    · rw [past, Nat.mod_self, Nat.zero_mod]
    · rfl
  constructor
  · have longer : (h.next (.addValue v)).recent.length = h.recent.length + 1 := List.length_append
    simp only [AveragingFilter.addValue, size, longer]
    split_ifs <;> omega
  · simp only [AveragingFilter.addValue]
    split_ifs <;> omega
  · rw [contents, List.length_append]
    omega
  · rw [contents, last, ← window_push (Nat.lt_succ_self k), place]
    exact window_congr turn
  · have sum := congrArg List.sum first
    rw [List.sum_cons] at sum
    rw [contents, last, List.sum_append, List.sum_singleton]
    simp only [AveragingFilter.addValue, total]
    linear_combination -sum

theorem Represents.clear (represents : Represents SIZE constructor filter h) :
    Represents SIZE constructor filter.clear (h.next .clear) := by
  have contents : (h.next .clear).contents = h.contents := List.append_nil _
  obtain ⟨size, start, whole, slots, total⟩ := represents
  refine ⟨by simp [AveragingFilter.clear, History.next], start, ?_, ?_, ?_⟩
  · rw [contents]
    exact whole
  · rw [contents]
    exact slots
  · rw [contents]
    exact total

/-- After any calls. -/
theorem represents_run (positive : 0 < SIZE) (constructor : Constructor T) (calls : List (Call T)) :
    Represents SIZE constructor (run SIZE constructor calls) (history SIZE constructor calls) := by
  induction calls using List.reverseRecOn with
  | nil => exact represents_make positive
  | append_singleton calls call ih =>
    rw [run, history, List.foldl_append, List.foldl_append]
    cases call with
    | addValue v => exact ih.addValue positive v
    | clear => exact ih.clear

/-! ### The mean -/

theorem Represents.getValue (represents : Represents SIZE constructor filter h) :
    filter.getValue SIZE = filter.total / (lastOf SIZE h.recent).length := by
  rw [AveragingFilter.getValue, lastOf_length, ← represents.size]
  split_ifs with room
  · rfl
  · have full : filter.size = SIZE := by
      have size := represents.size
      omega
    rw [full]

/-- The values in the slots: those from before the last `clear` that have not been overwritten, and the recent ones. -/
theorem contents_sum (SIZE : ℕ) (h : History T) :
    (lastOf SIZE h.contents).sum = (lastOf (SIZE - h.recent.length) h.before).sum + (lastOf SIZE h.recent).sum := by
  rw [History.contents, lastOf_append, List.sum_append]

theorem Represents.correct_iff [CharZero T] (represents : Represents SIZE constructor filter h) (positive : 0 < SIZE)
    (some : h.recent ≠ []) : Correct SIZE filter h.recent ↔
      (lastOf (SIZE - h.recent.length) h.before).sum = (SIZE - 1) * constructor.value := by
  have count : 0 < (lastOf SIZE h.recent).length := by
    have nonempty := List.length_pos_iff.mpr some
    rw [lastOf_length]
    omega
  have nonzero : ((lastOf SIZE h.recent).length : T) ≠ 0 := Nat.cast_ne_zero.mpr (Nat.ne_of_gt count)
  have size : filter.getSize = min h.recent.length SIZE := represents.size
  rw [Correct, and_iff_left size, represents.getValue, div_left_inj' nonzero, represents.total, contents_sum]
  constructor
  · intro mean
    linear_combination mean
  · intro rest
    linear_combination rest

theorem history_addValue (SIZE : ℕ) (values : List T) :
    history SIZE .plain (values.map .addValue) = ⟨List.replicate SIZE 0, values⟩ := by
  induction values using List.reverseRecOn with
  | nil => rfl
  | append_singleton values v ih =>
    rw [List.map_append, history, List.foldl_append]
    rw [history] at ih
    rw [ih]
    rfl

/-- A filter that is never cleared, and made without a value, gives the mean. -/
theorem run_addValue [CharZero T] (positive : 0 < SIZE) {values : List T} (some : values ≠ []) :
    (run SIZE .plain (values.map .addValue)).getValue SIZE = (lastOf SIZE values).sum / (lastOf SIZE values).length := by
  have represents := represents_run positive .plain (values.map Call.addValue)
  rw [history_addValue] at represents
  refine ((represents.correct_iff positive some).mpr ?_).1
  simp [lastOf, Constructor.value]

/-- The mean is right where the old values in the slots add up to what the constructor has left out of the total. -/
theorem mean_correct [CharZero T] (positive : 0 < SIZE) (constructor : Constructor T) (calls : List (Call T))
    (some : (history SIZE constructor calls).recent ≠ []) :
    Correct SIZE (run SIZE constructor calls) (history SIZE constructor calls).recent ↔
      (lastOf (SIZE - (history SIZE constructor calls).recent.length) (history SIZE constructor calls).before).sum =
        (SIZE - 1) * constructor.value :=
  (represents_run positive constructor calls).correct_iff positive some

theorem mean_correct_plain : Correct 3 (run 3 .plain [.addValue (2 : ℚ), .addValue 4]) [2, 4] :=
  (mean_correct (by decide) .plain [.addValue (2 : ℚ), .addValue 4] (by simp [history, History.next])).mpr
    (by simp [history, History.next, Constructor.value, lastOf])

/-- A value from before `clear` counts in the mean of the value after it; and two ones have the mean one half. -/
theorem mean_wrong :
    ((run 2 .plain [.addValue (4 : ℚ), .clear, .addValue 6]).getValue 2 = 10 ∧
      ¬ Correct 2 (run 2 .plain [.addValue (4 : ℚ), .clear, .addValue 6]) [6]) ∧
    (run 3 (.valued (1 : ℚ)) [.addValue 1, .addValue 1]).getValue 3 = 1 / 2 ∧
      ¬ Correct 3 (run 3 (.valued (1 : ℚ)) [.addValue 1, .addValue 1]) [1, 1] := by
  have cleared : (run 2 .plain [.addValue (4 : ℚ), .clear, .addValue 6]).getValue 2 = 10 := by
    norm_num [run, next, Constructor.make, AveragingFilter.new, AveragingFilter.addValue, AveragingFilter.clear,
      AveragingFilter.getValue, Function.update]
  have valued : (run 3 (.valued (1 : ℚ)) [.addValue 1, .addValue 1]).getValue 3 = 1 / 2 := by
    norm_num [run, next, Constructor.make, AveragingFilter.newWith, AveragingFilter.addValue, AveragingFilter.getValue, Function.update]
  refine ⟨⟨cleared, ?_⟩, valued, ?_⟩
  · rintro ⟨mean, -⟩
    rw [cleared] at mean
    norm_num [lastOf] at mean
  · rintro ⟨mean, -⟩
    rw [valued] at mean
    norm_num [lastOf] at mean

end

end Tortuga.AveragingFilters
