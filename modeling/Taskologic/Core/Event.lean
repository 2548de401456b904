import Taskologic.Core.Task

/-!
# The event log

Every column transition gets a row, and so does every other change somebody may ask about. `EventKind` is
what a row says, `EventKind.columns` where a task came from and went to, as far as the row knows, and
`diff` which fields a save changes.
-/

set_option autoImplicit false
set_option relaxedAutoImplicit false

namespace Taskologic.Core

/-- One field an edit touched. Dates and the title carry their old and new values. -/
inductive FieldChange where
  | title («from» «to» : Text)
  | startAt («from» «to» : Option Instant)
  | dueAt («from» «to» : Option Instant)
  | description
  | checklist
  | assignees
  | dependencies
  | reminders
  | repeats
  | printRules
  | autoStart
  deriving DecidableEq, Repr

/-- The change of one field, if there is one. -/
def changed {α : Type} [DecidableEq α] (before after : α) (change : FieldChange) :
    List FieldChange :=
  if before ≠ after then [change] else []

/-- Which fields a save actually changes. -/
def diff (task : Task) (draft : TaskDraft) : List FieldChange :=
  changed task.title (trim draft.title) (.title task.title (trim draft.title)) ++
  changed task.startAt draft.startAt (.startAt task.startAt draft.startAt) ++
  changed task.dueAt draft.dueAt (.dueAt task.dueAt draft.dueAt) ++
  changed task.description draft.description .description ++
  changed task.checklist draft.checklist .checklist ++
  changed task.assignees draft.assignees .assignees ++
  changed task.dependsOn draft.dependsOn .dependencies ++
  changed (task.reminderStartMinutes, task.reminderDueMinutes)
    (draft.reminderStartMinutes, draft.reminderDueMinutes) .reminders ++
  changed task.repeats draft.repeats .repeats ++
  changed task.printRules draft.printRules .printRules ++
  changed task.autoStart draft.autoStart .autoStart

inductive EventKind where
  /-- `column` is where it landed. -/
  | taskCreated (column : Option ColumnId)
  | taskEdited (changed : List FieldChange)
  | checklistToggled (index : ℕ) (text : Text) (done : Bool)
  | taskMoved («from» «to» : ColumnId)
  | taskReordered
  /-- Moved to the archive by a delete. The row stays until purged. -/
  | taskDeleted
  /-- The row is gone for good. -/
  | taskPurged
  | taskArchived («from» : ColumnId)
  | taskRestored («to» : ColumnId)
  /-- Somebody finished a task with open dependencies on purpose. -/
  | dependencyOverridden («open» : List TaskId)
  | scanApplied (action : ScanAction)
  | repeatSpawned (fromTask : TaskId)
  | repeatStopped
  | boardCreated
  | boardDeleted
  | boardSettingsChanged
  | columnAdded (column : ColumnId)
  | columnRemoved (column : ColumnId) (tasksMovedTo : Option ColumnId)
  | columnRenamed (column : ColumnId)
  | memberAdded (uid : Uid)
  | memberRemoved (uid : Uid) (unassigned : List TaskId)
  | printJobDropped (reason : Text)
  | templateCreated (template : TemplateId)
  | templateChanged (template : TemplateId)
  | templateDeleted (template : TemplateId)
  | programCreated (program : ProgramId)
  | programChanged (program : ProgramId)
  | programDeleted (program : ProgramId)
  /-- On the root task: the run began. -/
  | runStarted (run : RunId)
  /-- On the root task. -/
  | runCancelled (run : RunId)
  | questionAnswered (answer : Text)
  deriving DecidableEq, Repr

/-- Source and destination column. -/
def EventKind.columns : EventKind → Option ColumnId × Option ColumnId
  | taskCreated column => (none, column)
  | taskMoved source destination => (some source, some destination)
  | taskArchived source => (some source, none)
  | taskRestored destination => (none, some destination)
  | _ => (none, none)

/-- One row of the log. The scheduler and the runs act as nobody. -/
structure EventRow where
  boardId : BoardId
  taskId : Option TaskId
  actor : Option Uid
  kind : EventKind
  recordedAt : Instant
  deriving DecidableEq, Repr

end Taskologic.Core
