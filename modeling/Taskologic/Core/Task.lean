import Taskologic.Core.Program

/-!
# Tasks

`TaskRow` is a task as its own table keeps it, and `Task` is the task with what other tables know about
it: who it is assigned to, what it depends on, how it repeats and which run it belongs to. `Task.draft`
is the draft that saves a task as it is.
-/

set_option autoImplicit false
set_option relaxedAutoImplicit false

namespace Taskologic.Core

structure TaskRow where
  id : TaskId
  shortId : ShortId
  boardId : BoardId
  columnId : ColumnId
  /-- Manual order inside the column. -/
  position : ℤ
  title : Text
  description : Text
  startAt : Option Instant
  dueAt : Option Instant
  /-- Minutes before `startAt`, in place of the user's own lead time. -/
  reminderStartMinutes : Option ℕ
  reminderDueMinutes : Option ℕ
  createdBy : Uid
  createdAt : Instant
  /-- Set when the task enters the finished column, cleared when it leaves. -/
  finishedAt : Option Instant
  /-- Bumped on every write, so that two people who edit at once do not clobber each other. -/
  version : ℕ
  archivedAt : Option Instant
  archivedFromCol : Option ColumnId
  /-- Set when the task was deleted rather than finished. -/
  deletedAt : Option Instant
  checklist : List ChecklistItem
  /-- The template this task was stamped out of. -/
  templateId : Option TemplateId
  excludeFromStats : Bool
  printRules : List PrintRule
  /-- Moved into the started column by the scheduler when the start date arrives. -/
  autoStart : Bool
  deriving DecidableEq, Repr

structure Task extends TaskRow where
  assignees : List Uid
  dependsOn : List TaskId
  repeats : Option RepeatSpec
  /-- Which run and step this task is, when a program made it. -/
  program : Option StepRef
  deriving DecidableEq, Repr

def TaskRow.isArchived (row : TaskRow) : Bool := row.archivedAt.isSome

def TaskRow.isDeleted (row : TaskRow) : Bool := row.deletedAt.isSome

/-- In the finished column, or archived. This is what done means for dependencies and repetition. -/
def TaskRow.isDone (row : TaskRow) (board : Board) : Bool :=
  row.isArchived || row.columnId == board.finishedCol

namespace Task

variable (task : Task)

def isAssignee (uid : Uid) : Bool := task.assignees.contains uid

def isCreator (uid : Uid) : Bool := task.createdBy == uid

/-- The draft that saves this task as it is. -/
def draft : TaskDraft where
  title := task.title
  description := task.description
  startAt := task.startAt
  dueAt := task.dueAt
  reminderStartMinutes := task.reminderStartMinutes
  reminderDueMinutes := task.reminderDueMinutes
  assignees := task.assignees
  dependsOn := task.dependsOn
  checklist := task.checklist
  repeats := task.repeats
  printRules := task.printRules
  autoStart := task.autoStart

end Task

/-- `TaskDraft::default`. -/
def TaskDraft.default : TaskDraft where
  title := []
  description := []
  startAt := none
  dueAt := none
  reminderStartMinutes := none
  reminderDueMinutes := none
  assignees := []
  dependsOn := []
  checklist := []
  repeats := none
  printRules := []
  autoStart := false

end Taskologic.Core
