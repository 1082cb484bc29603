import Mathlib.Algebra.Order.Ring.Rat
import Mathlib.Data.List.Basic
import Mathlib.Order.Defs.LinearOrder
import Mathlib.Tactic.Cases

/-!
The signals of the monitor (`monitor.py`): each measured value is compared with the one before it,
and an event is published when it has come to another level. Before the first value the signal
remembers 0.
-/
namespace Tortuga.SignalLevels
set_option linter.unusedSimpArgs false

/-- The event types of the monitor, which are also the levels of a value. -/
inductive Level where
  | nominal
  | warning
  | critical
  deriving DecidableEq, Repr

structure Event where
  type : Level
  string : String
  deriving DecidableEq, Repr

structure Signal (α : Type) where
  eventType : String
  property : String
  name : String
  warning : α
  critical : α
  lastValue : α
  deriving DecidableEq, Repr

section
variable {α : Type} [LinearOrder α]

def Signal.new [Zero α] (eventType property name : String) (warning critical : α) : Signal α :=
  ⟨eventType, property, name, warning, critical, 0⟩

def Signal.checkMaximum (s : Signal α) (value : α) (event : String) : List Event :=
  if value > s.lastValue then
    if value ≥ s.critical ∧ s.lastValue < s.critical then [⟨.critical, event⟩]
    else if value ≥ s.warning ∧ s.lastValue < s.warning then [⟨.warning, event⟩]
    else []
  else
    if value < s.warning ∧ s.lastValue ≥ s.warning then [⟨.nominal, event⟩]
    else if value < s.critical ∧ s.lastValue ≥ s.critical then [⟨.warning, event⟩]
    else []

def Signal.checkMinimum (s : Signal α) (value : α) (event : String) : List Event :=
  if value ≤ s.lastValue then
    if value ≤ s.critical ∧ s.lastValue > s.critical then [⟨.critical, event⟩]
    else if value ≤ s.warning ∧ s.lastValue > s.warning then [⟨.warning, event⟩]
    else []
  else
    if value > s.warning ∧ s.lastValue ≤ s.warning then [⟨.nominal, event⟩]
    else if value > s.critical ∧ s.lastValue ≤ s.critical then [⟨.warning, event⟩]
    else []

variable (text : α → String)

/-- The string of the event. `text` is what `%s` makes of a value. -/
def Signal.string (s : Signal α) (value : α) : String :=
  s.eventType ++ ":" ++ s.property ++ ":" ++ s.name ++ ":" ++ text value

def Signal.handler (s : Signal α) (value : α) : Signal α × List Event :=
  let event := s.string text value
  let published := if s.critical > s.warning then s.checkMaximum value event else s.checkMinimum value event
  ({ s with lastValue := value }, published)

/-- What is published while the values come one after the other. -/
def Signal.handlerAll (s : Signal α) : List α → Signal α × List Event
  | [] => (s, [])
  | value :: values =>
    let (s, published) := s.handler text value
    let (s, more) := s.handlerAll values
    (s, published ++ more)

/-! ### What is meant -/

/-- The level of a value: a maximum signal has its critical threshold above the other one. -/
def Signal.level (s : Signal α) (value : α) : Level :=
  if s.warning < s.critical then
    if s.critical ≤ value then .critical else if s.warning ≤ value then .warning else .nominal
  else
    if value ≤ s.critical then .critical else if value ≤ s.warning then .warning else .nominal

/-- One event where two values are not on one level, with the name of the new level. -/
def Signal.change (s : Signal α) (values : α × α) : Option Event :=
  if s.level values.1 = s.level values.2 then none else some ⟨s.level values.2, s.string text values.2⟩

/-- The changes from each sample to the next. -/
def Signal.changes (s : Signal α) (samples : List α) : List Event :=
  (samples.zip samples.tail).filterMap (s.change text)

variable {text} {s : Signal α} {value : α}

/-- Which of the two thresholds a value passes on its way up. -/
theorem checkMaximum_eq (maximum : s.warning < s.critical) :
    s.checkMaximum value (s.string text value) = (s.change text (s.lastValue, value)).toList := by
  rw [Signal.checkMaximum, Signal.change]
  simp only [Signal.level, if_pos maximum]
  grind

/-- And on its way down. -/
theorem checkMinimum_eq (minimum : ¬ s.warning < s.critical) :
    s.checkMinimum value (s.string text value) = (s.change text (s.lastValue, value)).toList := by
  rw [Signal.checkMinimum, Signal.change]
  simp only [Signal.level, if_neg minimum]
  grind

theorem handler_eq : s.handler text value = ({ s with lastValue := value }, (s.change text (s.lastValue, value)).toList) := by
  rw [Signal.handler]
  by_cases maximum : s.warning < s.critical
  · simp only [gt_iff_lt, if_pos maximum, checkMaximum_eq maximum]
  · simp only [gt_iff_lt, if_neg maximum, checkMinimum_eq maximum]

@[simp] theorem change_lastValue (last : α) : ({ s with lastValue := last } : Signal α).change text = s.change text := rfl

theorem handlerAll_lastValue (samples : List α) :
    (s.handlerAll text samples).1 = { s with lastValue := samples.getLastD s.lastValue } := by
  induction samples generalizing s with
  | nil => rfl
  | cons value rest ih =>
    rw [Signal.handlerAll, handler_eq]
    simp only [ih, List.getLastD_cons]

/-- The remembered value counts as the sample before the first. -/
theorem handlerAll_published (samples : List α) : (s.handlerAll text samples).2 = s.changes text (s.lastValue :: samples) := by
  induction samples generalizing s with
  | nil => rfl
  | cons value rest ih =>
    rw [Signal.handlerAll, handler_eq]
    simp only [ih, Signal.changes, List.tail_cons, List.zip_cons_cons, List.filterMap_cons, change_lastValue]
    cases s.change text (s.lastValue, value) <;> simp

theorem changes_cons (last value : α) (rest : List α) :
    s.changes text (last :: value :: rest) = (s.change text (last, value)).toList ++ s.changes text (value :: rest) := by
  simp only [Signal.changes, List.tail_cons, List.zip_cons_cons, List.filterMap_cons]
  cases s.change text (last, value) <;> simp

theorem change_eq_none (last : α) : s.change text (last, value) = none ↔ s.level last = s.level value := by
  simp [Signal.change]

theorem changes_getLast (last : α) (samples : List α) :
    ((s.changes text (last :: samples)).getLast?.map Event.type).getD (s.level last) = s.level (samples.getLastD last) := by
  induction samples generalizing last with
  | nil => rfl
  | cons value rest ih =>
    rw [changes_cons, List.getLastD_cons, ← ih value]
    by_cases same : s.level last = s.level value
    · rw [(change_eq_none last).mpr same, same]
      rfl
    · simp only [Signal.change, same, if_false, Option.toList_some, List.singleton_append, List.getLast?_cons]
      cases (s.changes text (value :: rest)).getLast? <;> rfl

/-- After any run, the last event names the level that the signal is on. -/
theorem handlerAll_announced (samples : List α) :
    ((s.handlerAll text samples).2.getLast?.map Event.type).getD (s.level s.lastValue) =
      s.level (s.handlerAll text samples).1.lastValue := by
  rw [handlerAll_published, handlerAll_lastValue]
  exact changes_getLast s.lastValue samples

end

variable {α : Type} [LinearOrder α] [Zero α]

/-- The events are those of the changes between the samples just when the first sample is on the level of 0. -/
theorem published_correct (text : α → String) (eventType property name : String) (warning critical : α) (samples : List α) :
    let s := Signal.new eventType property name warning critical
    (s.handlerAll text samples).2 = s.changes text samples ↔ ∀ value ∈ samples.head?, s.level value = s.level 0 := by
  intro s
  rw [handlerAll_published]
  cases samples with
  | nil => simp [Signal.changes]
  | cons value rest =>
    rw [changes_cons]
    have start : s.lastValue = 0 := rfl
    have first : (s.change text (s.lastValue, value)).toList = [] ↔ s.level value = s.level 0 := by
      rw [Option.toList_eq_nil_iff, change_eq_none, start]
      exact eq_comm
    simp [first]

/-- A battery that is good from the first sample on is announced as nominal again, and one that is
    critical from the first sample on is not announced at all. -/
theorem published_battery :
    let s := Signal.new "ext.vehicle.device.IVoltageProvider.UPDATE" "number" "Battery 1" (267 / 10 : ℚ) 26
    (s.handlerAll toString [28]).2 = [⟨.nominal, "ext.vehicle.device.IVoltageProvider.UPDATE:number:Battery 1:28"⟩] ∧
      s.changes toString [28] = [] ∧ (s.handlerAll toString [25]).2 = [] ∧ s.level 25 = .critical := by
  decide +kernel

end Tortuga.SignalLevels
