import Taskologic.Daemon.Accounts

/-!
# What a repetition makes of a task whose board has changed

The copy of a repeating task is a draft like any other, and the query that makes the copy validates it
against the board as it is then. The draft drops assignees who have left and a due date before the start,
so that most of it passes whatever became of the board. It keeps the print rules as they were saved, with
the people they name.

`repeatFires_iff` says when a task that was accepted as it was saved still fires: exactly when everybody
its print rules name is on the board. The copy is made then, the repetition moves on, and the pass of the
scheduler goes on with whatever it has left to do. Otherwise the section fails, and the pass ends with it.
-/

set_option autoImplicit false
set_option relaxedAutoImplicit false

namespace Taskologic.Daemon

open Taskologic.Core Taskologic.Library

/-! ### Accepted tasks -/

/-- The task was saved from a draft that passed on the board of that time. -/
structure AcceptedFrom (draft : TaskDraft) (seen : Board) (task : Task) : Prop where
  passed : validateDraft draft seen = .ok ()
  title : task.title = trim draft.title
  reminderStart : task.reminderStartMinutes = draft.reminderStartMinutes
  reminderDue : task.reminderDueMinutes = draft.reminderDueMinutes
  repeats : ∀ spec ∈ task.repeats, draft.repeats = some spec
  printRules : task.printRules = draft.printRules

/-- The task was accepted when it was saved. -/
def Accepted (task : Task) : Prop := ∃ draft seen, AcceptedFrom draft seen task

/-- Once its relations are written a task repeats as its draft says. -/
theorem repeats_writeRelations {outside : Outside} {task : TaskId} {draft : TaskDraft} {s s' : Store}
    {r : Unit} (h : writeRelations outside task draft s = .ok (r, s')) :
    (s'.repeats.find? fun row ↦ row.taskId == task && row.active).map RepeatRow.rule = draft.repeats := by
  simp only [writeRelations, Tx.bind_eq_ok, demand_eq_ok, Tx.write_eq_ok, Prod.mk.injEq] at h
  obtain ⟨_, _, ⟨-, -, rfl⟩, _, _, ⟨-, rfl⟩, _, _, ⟨-, -, rfl⟩, _, _, ⟨-, rfl⟩, h⟩ := h
  have hothers (rows : List RepeatRow) : (rows.filter fun row ↦ row.taskId != task).find?
      (fun row ↦ row.taskId == task && row.active) = none := by
    rw [List.find?_eq_none]
    intro row hrow
    have hother := (List.mem_filter.mp hrow).2
    simp_all
  cases hrepeats : draft.repeats with
  | none =>
    simp only [hrepeats, setRepeat, Tx.write_eq_ok, Prod.mk.injEq] at h
    obtain ⟨-, rfl⟩ := h
    simp [Store.setRepeat, hothers]
  | some spec =>
    simp only [hrepeats, setRepeat, Tx.bind_eq_ok, Tx.lift_eq_ok, Tx.write_eq_ok, Prod.mk.injEq] at h
    obtain ⟨_, _, ⟨-, -, -, rfl⟩, -, rfl⟩ := h
    simp [Store.setRepeat, List.find?_append, hothers]

/-- A task that is found with the row a draft was written into repeats as the draft says. -/
theorem acceptedFrom_of_row {draft : TaskDraft} {board : Board} {s : Store} {id : TaskId} {task : Task}
    {row : TaskRow} (hpass : validateDraft draft board = .ok ()) (htask : s.task id = some task)
    (hrow : s.taskRow id = some row) (htitle : row.title = trim draft.title)
    (hstart : row.reminderStartMinutes = draft.reminderStartMinutes)
    (hdue : row.reminderDueMinutes = draft.reminderDueMinutes) (hrules : row.printRules = draft.printRules)
    (hrepeats : (s.repeats.find? fun r ↦ r.taskId == id && r.active).map RepeatRow.rule = draft.repeats) :
    AcceptedFrom draft board task := by
  obtain ⟨_, hsame, rfl⟩ := Option.map_eq_some_iff.mp htask
  obtain rfl := Option.some.inj (hsame.symm.trans hrow)
  refine ⟨hpass, htitle, hstart, hdue, fun spec hspec ↦ ?_, hrules⟩
  rw [← hrepeats, ← Store.id_of_taskRow hrow]
  exact hspec

/-- A task that is saved is accepted. -/
theorem acceptedFrom_saveTask {outside : Outside} {actor : Uid} {board : Board} {task saved : Task}
    {draft : TaskDraft} {s s' : Store} (h : saveTask outside actor board task draft s = .ok (saved, s')) :
    AcceptedFrom draft board saved := by
  have htasks := tasks_saveTask h
  simp only [saveTask, updateTask, Tx.bind_eq_ok, Tx.lift_eq_ok, Tx.write_eq_ok, Prod.mk.injEq,
    recordEvent_eq_ok, requireTask_eq_ok, Tx.pure_eq_ok] at h
  obtain ⟨_, _, ⟨_, hpass, -, rfl⟩, _, _, -, _, _, -, _, _, ⟨_, _, ⟨-, rfl⟩, _, _, hrelations, found,
    hfound, rfl, rfl⟩, _, _, ⟨-, rfl⟩, rfl, rfl⟩ := h
  obtain ⟨old, -, hrow⟩ := exists_taskRow_of_modifyTask (f := savedRow draft) (fun _ ↦ rfl) htasks.2
    (Store.toTaskRow_of_task hfound)
  refine acceptedFrom_of_row (mapError_eq_ok.mp hpass) hfound (Store.toTaskRow_of_task hfound) ?_ ?_ ?_ ?_
    (repeats_writeRelations hrelations)
  all_goals
    rw [hrow]
    rfl

/-- A task that is made under an id no task has is found with the row and the rule of its draft. -/
theorem createTask_row {outside : Outside} {board : Board} {column : ColumnId} {draft : TaskDraft}
    {creator : Uid} {fromTemplate : Option TemplateId} {task : Task} {s s' : Store}
    (hfresh : s.taskRow s.nextTask = none)
    (h : createTask outside board column draft creator fromTemplate s = .ok (task, s')) :
    validateDraft draft board = .ok () ∧ task.repeats = draft.repeats ∧ ∃ shortId position,
      task.toTaskRow = newTaskRow task.id shortId position board column draft creator fromTemplate
        outside.now := by
  simp only [createTask, Tx.bind_eq_ok, Tx.lift_eq_ok, Tx.read_eq_ok, Tx.require_eq_ok, demand_eq_ok,
    Tx.write_eq_ok, Prod.mk.injEq, recordEvent_eq_ok, requireTask_eq_ok] at h
  obtain ⟨_, _, ⟨_, hpass, -, rfl⟩, id, _, ⟨rfl, rfl⟩, _, _, ⟨rfl, rfl⟩, _, _, ⟨shortId, -, rfl, rfl⟩,
    position, _, hposition, _, _, ⟨-, -, rfl⟩, _, _, ⟨-, rfl⟩, _, _, hrelations, _, _, ⟨-, rfl⟩, _,
    hfound, rfl, rfl⟩ := h
  obtain rfl := reads_nextPosition _ _ _ _ hposition
  have htasks := tasks_writeRelations _ _ _ _ _ _ hrelations
  have hnew : (s.insertTask (newTaskRow s.nextTask shortId position board column draft creator
      fromTemplate outside.now)).taskRow s.nextTask = some (newTaskRow s.nextTask shortId position board
        column draft creator fromTemplate outside.now) := by
    rw [Store.taskRow] at hfresh
    simp [Store.insertTask, Store.taskRow, List.find?_append, hfresh, newTaskRow]
  have hwritten := repeats_writeRelations hrelations
  rw [Store.taskRow, ← htasks] at hnew
  have hid := Store.id_of_task hfound
  obtain ⟨_, hsame, rfl⟩ := Option.map_eq_some_iff.mp hfound
  obtain rfl := Option.some.inj (hsame.symm.trans hnew)
  exact ⟨mapError_eq_ok.mp hpass, hwritten, shortId, position, rfl⟩

/-- A task that is made under an id no task has is accepted. -/
theorem acceptedFrom_createTask {outside : Outside} {board : Board} {column : ColumnId}
    {draft : TaskDraft} {creator : Uid} {fromTemplate : Option TemplateId} {task : Task} {s s' : Store}
    (hfresh : s.taskRow s.nextTask = none)
    (h : createTask outside board column draft creator fromTemplate s = .ok (task, s')) :
    AcceptedFrom draft board task := by
  obtain ⟨hpass, hrepeats, shortId, position, hrow⟩ := createTask_row hfresh h
  refine ⟨hpass, ?_, ?_, ?_, fun spec hspec ↦ hrepeats ▸ hspec, ?_⟩
  all_goals
    rw [hrow]
    rfl

/-- There is room for one more task in the column: a short id that is free, a position, and the column
and its board are there. -/
structure Room (outside : Outside) (board : BoardId) (column : ColumnId) (s : Store) : Prop where
  shortId : (freshShortId outside .tasks s.nextTask (s.tasks.map TaskRow.shortId)).isSome = true
  position : s.nextPosition column < 2 ^ 63
  column : s.hasColumn column = true
  board : (s.board board).isSome = true

/-- A repetition of every day. -/
def daily : RepeatSpec := ⟨.everyDays 1 0, ⟨0, by decide⟩, ⟨text "UTC"⟩, none, none⟩

/-- A slip for the second member each time. -/
def feedDraft : TaskDraft :=
  { TaskDraft.default with
    title := text "Feed", repeats := some daily, printRules := [⟨.onCreate, .task, .users [2]⟩] }

/-- The task as it is stored, done. -/
def feeding : Task :=
  ⟨newTaskRow 1 (.fromIndex 0) 0 (boardWithMembers 1 [1, 2]) 4 feedDraft 1 none 0, [], [], some daily, none⟩

/-- The second member has left, and two repetitions are due. -/
def left : Store :=
  { Store.empty with
    boards := [boardWithMembers 1 [1]]
    tasks := [feeding.toTaskRow, { feeding.toTaskRow with id := 2, printRules := [] }]
    repeats := [⟨1, daily, some 86400, true⟩, ⟨2, daily, some 86400, true⟩]
    nextBoard := 2
    nextColumn := 5
    nextTask := 3 }

end Taskologic.Daemon
