import Mathlib.Logic.Function.Basic
import Tortuga.Raising
import Tortuga.Successors

/-!
The task order of the AI (`ai/subsystem.py`): the names are resolved to classes, and for each class
the map holds the class of the task that is next. Each task asks for it by its own class.
-/
namespace Tortuga.TaskOrder
open Tortuga.Raising (except_bind_ok)
open Tortuga.Successors
set_option linter.unusedSimpArgs false

inductive PyError where
  | keyError
  | indexError
  | importError (text : String)
  | attributeError (text : String)
  deriving DecidableEq, Repr

/-- What the subsystem keeps about the tasks, which are classes. -/
structure AI (C : Type) where
  nextTaskMap : C → Option C
  taskOrder : List C
  failureTaskMap : C → Option C

section
variable {C : Type} [DecidableEq C] (resolve : String → Except PyError C)

/-- Which task is really next. -/
def nextTask (taskOrder : List String) (i : ℕ) : Except PyError String :=
  if i ≠ taskOrder.length - 1 then
    match taskOrder[i + 1]? with
    | some name => .ok name
    | none => .error .indexError
  else .ok "ram.ai.task.End"

/-- The body of the loop over the task order. -/
def addTask (taskOrder : List String) (ai : AI C) (item : String × ℕ) : Except PyError (AI C) := do
  let nextTask ← nextTask taskOrder item.2
  let taskClass ← resolve item.1
  let nextClass ← resolve nextTask
  return { ai with
    nextTaskMap := Function.update ai.nextTaskMap taskClass (some nextClass)
    taskOrder := ai.taskOrder ++ [taskClass] }

/-- The body of the loop over the failure tasks. -/
def addFailureTask (ai : AI C) (item : String × String) : Except PyError (AI C) := do
  let taskClass ← resolve item.1
  let failureTaskClass ← resolve item.2
  return { ai with failureTaskMap := Function.update ai.failureTaskMap taskClass (some failureTaskClass) }

/-- The constructor. A part that is missing from the configuration is an empty one. -/
def AI.new (taskOrder : Option (List String)) (failureTasks : Option (List (String × String))) : Except PyError (AI C) := do
  let taskOrder := taskOrder.getD []
  let ai ← taskOrder.zipIdx.foldlM (addTask resolve taskOrder) ⟨fun _ => none, [], fun _ => none⟩
  (failureTasks.getD []).foldlM (addFailureTask resolve) ai

/-- The task that the state machine is started with. -/
def AI.start (ai : AI C) : Except PyError C :=
  match ai.taskOrder with
  | [] => .error .indexError
  | task :: _ => .ok task

def AI.getNextTask (ai : AI C) (task : C) : Except PyError C :=
  match ai.nextTaskMap task with
  | none => .error .keyError
  | some next => .ok next

def AI.getFailureState (ai : AI C) (task : C) : Option C := ai.failureTaskMap task

/-! ### What is meant -/

/-- Asking for the next task from `first` on meets the tasks `l`, and then `last`. -/
def AI.Visits (ai : AI C) (last first : C) (l : List C) : Prop := Walk (fun task => (ai.getNextTask task).toOption) last first l

variable {resolve} {ai ai' : AI C} {names : List String} {last : C}

omit [DecidableEq C] in
theorem toOption_getNextTask (task : C) : (ai.getNextTask task).toOption = ai.nextTaskMap task := by
  rw [AI.getNextTask]
  cases ai.nextTaskMap task <;> rfl

theorem nextTask_append (before after : List String) (name : String) :
    nextTask (before ++ name :: after) before.length = .ok (after.headD "ram.ai.task.End") := by
  rw [nextTask]
  cases after <;> simp

/-- One task, with the name of the next one or of the end. -/
theorem addTask_ok {before after : List String} {name : String} (split : names = before ++ name :: after)
    (done : addTask resolve names ai (name, before.length) = .ok ai') :
    ∃ task next, resolve name = .ok task ∧ resolve (after.headD "ram.ai.task.End") = .ok next ∧
      ai' = { ai with nextTaskMap := Function.update ai.nextTaskMap task (some next), taskOrder := ai.taskOrder ++ [task] } := by
  rw [addTask] at done
  obtain ⟨name, chosen, done⟩ := except_bind_ok.mp done
  obtain ⟨task, own, done⟩ := except_bind_ok.mp done
  obtain ⟨next, other, same⟩ := except_bind_ok.mp done
  cases same
  rw [split, nextTask_append] at chosen
  cases chosen
  exact ⟨task, next, own, other, rfl⟩

/-- What the loop has stored at its end: each class with what comes behind its last place. -/
theorem addTasks_ok (ends : resolve "ram.ai.task.End" = .ok last) {before after : List String} (split : names = before ++ after)
    (done : (after.zipIdx before.length).foldlM (addTask resolve names) ai = .ok ai') :
    ∃ order, after.mapM resolve = .ok order ∧ ai'.taskOrder = ai.taskOrder ++ order ∧
      (∀ task, ai'.nextTaskMap task = (successor last order task).or (ai.nextTaskMap task)) ∧
      resolve (after.headD "ram.ai.task.End") = .ok (order.headD last) := by
  induction after generalizing before ai with
  | nil =>
    cases done
    exact ⟨[], rfl, (List.append_nil _).symm, fun _ => rfl, ends⟩
  | cons name after ih =>
    rw [List.zipIdx_cons, List.foldlM_cons] at done
    obtain ⟨middle, first, rest⟩ := except_bind_ok.mp done
    obtain ⟨task, next, own, other, rfl⟩ := addTask_ok split first
    have further : names = (before ++ [name]) ++ after := by rw [split, List.append_cons]
    have length : (before ++ [name]).length = before.length + 1 := by simp
    rw [← length] at rest
    obtain ⟨order, resolved, stored, map, head⟩ := ih further rest
    refine ⟨task :: order, ?_, ?_, fun x => ?_, own⟩
    · rw [List.mapM_cons, own, resolved]
      rfl
    · rw [stored, List.append_assoc]
      rfl
    · rw [other] at head
      cases head
      rw [map, successor, Option.or_assoc]
      congr 1
      show Function.update ai.nextTaskMap task _ x = _
      by_cases here : x = task
      · rw [here, Function.update_self, if_pos rfl]
        rfl
      · rw [Function.update_of_ne here, if_neg here]
        rfl

/-- The failure tasks leave the order alone. -/
theorem addFailureTasks_ok {items : List (String × String)} (done : items.foldlM (addFailureTask resolve) ai = .ok ai') :
    ai'.taskOrder = ai.taskOrder ∧ ai'.nextTaskMap = ai.nextTaskMap := by
  induction items generalizing ai with
  | nil =>
    cases done
    exact ⟨rfl, rfl⟩
  | cons item items ih =>
    rw [List.foldlM_cons] at done
    obtain ⟨middle, first, rest⟩ := except_bind_ok.mp done
    obtain ⟨task, _, first⟩ := except_bind_ok.mp first
    obtain ⟨failure, _, same⟩ := except_bind_ok.mp first
    cases same
    have after := ih rest
    exact after

end

variable {C : Type} [DecidableEq C]

/-- The order of the tasks is that of the configuration just when no class is in it twice, and the
    end is not one of the tasks. -/
theorem taskOrder_followed (resolve : String → Except PyError C) (last : C) (ends : resolve "ram.ai.task.End" = .ok last)
    (taskOrder : Option (List String)) (failureTasks : Option (List (String × String))) (ai : AI C)
    (made : AI.new resolve taskOrder failureTasks = .ok ai) :
    (taskOrder.getD []).mapM resolve = .ok ai.taskOrder ∧
      ∀ first, ai.start = .ok first → (ai.Visits last first ai.taskOrder ↔ ai.taskOrder.Nodup ∧ last ∉ ai.taskOrder) := by
  obtain ⟨middle, tasks, failures⟩ := except_bind_ok.mp made
  obtain ⟨order, resolved, stored, map, _⟩ := addTasks_ok ends (List.nil_append _).symm tasks
  obtain ⟨same, next⟩ := addFailureTasks_ok failures
  rw [same, stored, List.nil_append]
  refine ⟨resolved, fun first started => ?_⟩
  have head : first = order.headD last := by
    rw [AI.start, same, stored, List.nil_append] at started
    cases order with
    | nil => cases started
    | cons task order =>
      cases started
      rfl
  have asked : (fun task => (ai.getNextTask task).toOption) = successor last order := by
    funext task
    rw [toOption_getNextTask, next, map, Option.or_none]
  rw [AI.Visits, asked, head]
  exact walk_successor_iff

/-- Each class has one dotted name. -/
def resolveName (name : String) : Except PyError String := .ok name

/-- The configuration of the unit test. -/
def testOrder : List String := ["ram.test.ai.task.TaskA", "ram.test.ai.task.TaskB", "ram.test.ai.task.TaskC"]

theorem taskOrder_test : ∃ ai,
    AI.new resolveName (some testOrder) (some [("ram.test.ai.task.TaskB", "ram.test.ai.task.BRecovery")]) = .ok ai ∧
    ai.start = .ok "ram.test.ai.task.TaskA" ∧ ai.Visits "ram.ai.task.End" "ram.test.ai.task.TaskA" testOrder := by
  obtain ⟨ai, made⟩ : ∃ ai,
      AI.new resolveName (some testOrder) (some [("ram.test.ai.task.TaskB", "ram.test.ai.task.BRecovery")]) = .ok ai :=
    ⟨_, rfl⟩
  obtain ⟨resolved, followed⟩ := taskOrder_followed resolveName "ram.ai.task.End" rfl _ _ ai made
  have order : ai.taskOrder = testOrder := Except.ok.inj resolved.symm
  have started : ai.start = .ok "ram.test.ai.task.TaskA" := by
    rw [AI.start, order]
    rfl
  have visits := followed _ started
  rw [order] at visits
  exact ⟨ai, made, started, visits.mpr (by decide)⟩

/-- The second pipe has the class of the first: behind both of them stands what is behind the second. -/
theorem taskOrder_repeated : ∃ ai first,
    AI.new resolveName (some ["ram.ai.course.Pipe", "ram.ai.course.Bin", "ram.ai.course.Pipe"]) none = .ok ai ∧
      ai.start = .ok first ∧ ai.getNextTask first = .ok "ram.ai.task.End" ∧
      ai.taskOrder = ["ram.ai.course.Pipe", "ram.ai.course.Bin", "ram.ai.course.Pipe"] ∧
      ¬ ai.Visits "ram.ai.task.End" first ai.taskOrder := by
  refine ⟨_, _, rfl, rfl, rfl, rfl, fun walk => ?_⟩
  exact absurd walk.nodup (by decide)

end Tortuga.TaskOrder
