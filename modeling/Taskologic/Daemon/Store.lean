import Taskologic.Core.Engine
import Taskologic.Core.Event
import Taskologic.Core.Repetition
import Taskologic.Daemon.Error
import Taskologic.Library.Transaction

/-!
# The store

The tables of the database, what is read from them, and the elementary changes to them. A board is kept
with its columns and members. Rows that belong to a task go when the task goes (`Store.dropTasks`), and so
do the runs it is the root of with all that belongs to them.

`Outside` is what a section under the lock reads besides the store: the clock, random numbers, the zone
database, the averages of finished tasks and the order in which a bulk update visits the rows.

`reactions` is not a table. It is the history of what the engine was asked, run by run, and no definition
reads it.

Scope. The print queue, the slips printed by a user's own settings and what only login needs are left
out. Times are whole seconds, as they are stored; a section reads the clock once.
-/

set_option autoImplicit false
set_option relaxedAutoImplicit false

namespace Taskologic.Daemon

open Taskologic.Core Taskologic.Library

/-- A user of the system, as much of them as the daemon's decisions need. -/
structure User where
  uid : Uid
  isAdmin : Bool
  timezone : Tz
  deriving DecidableEq, Repr

structure RepeatRow where
  taskId : TaskId
  rule : RepeatSpec
  nextFireAt : Option Instant
  active : Bool
  deriving DecidableEq, Repr

/-- What a run remembers about one of its tasks. -/
structure TaskLink where
  taskId : TaskId
  run : RunId
  step : Text
  iteration : ℕ
  /-- The fan-out entry this task is for. -/
  param : Option Text
  counts : Bool
  timeLimit : Option Offset
  pausedAt : Option Instant
  skipped : Bool
  question : Option Question
  /-- Finished with the question unanswered. -/
  asked : Bool
  answer : Option Text
  deriving DecidableEq, Repr

def TaskLink.pendingAnswer (link : TaskLink) : Bool := link.asked && link.answer.isNone

/-- A slip somebody already had, by the moment and paper of its rule and the date it counts from. -/
structure SlipRow where
  taskId : TaskId
  uid : Uid
  kind : PrintWhen × SlipKind
  anchorAt : Instant
  deriving DecidableEq, Repr

/-- One question put to the engine. -/
structure Reaction where
  run : RunId
  event : RunEvent
  deriving DecidableEq, Repr

structure Store where
  users : List User
  boards : List Board
  tasks : List TaskRow
  assignees : List (TaskId × Uid)
  /-- Each entry is a task and one it depends on. -/
  deps : List (TaskId × TaskId)
  repeats : List RepeatRow
  templates : List Template
  programs : List Program
  runs : List Run
  links : List TaskLink
  events : List EventRow
  slips : List SlipRow
  /-- The ids handed out next. None is handed out twice. -/
  nextBoard : BoardId
  nextColumn : ColumnId
  nextTask : TaskId
  nextTemplate : TemplateId
  nextProgram : ProgramId
  nextRun : RunId
  reactions : List Reaction

/-- The database of a fresh install. -/
def Store.empty : Store where
  users := []
  boards := []
  tasks := []
  assignees := []
  deps := []
  repeats := []
  templates := []
  programs := []
  runs := []
  links := []
  events := []
  slips := []
  nextBoard := 1
  nextColumn := 1
  nextTask := 1
  nextTemplate := 1
  nextProgram := 1
  nextRun := 1
  reactions := []

/-- The order in which a bulk update visits the rows, and whether a subquery in it sees the rows it has
rewritten already. The database promises neither. -/
structure Sweep where
  rank : TaskId → ℕ
  seesMoved : Bool

/-- The tables that have short ids of their own. -/
inductive ShortIdTable where
  | tasks
  | boards
  | templates
  | programs
  deriving DecidableEq, Repr

/-- What a section reads besides the store. -/
structure Outside where
  now : Instant
  /-- The numbers drawn for the row of a table that gets this id, one for each try. -/
  random : ShortIdTable → ℕ → ℕ → ℕ
  zones : Tz → Zone
  /-- How long the tasks of a template have taken on average, and over how many of them. -/
  templateAverage : TemplateId → Option (ℤ × ℕ)
  sweep : Sweep

/-- A clock that stands, with every zone at UTC and no history. -/
def Outside.still (now : Instant) : Outside where
  now := now
  random _ key n := key * 32 + n
  zones _ := .utc
  templateAverage _ := none
  sweep := ⟨id, false⟩

/-! ### Reading -/

namespace Store

variable (s : Store)

def user (uid : Uid) : Option User := s.users.find? fun user ↦ user.uid == uid

def board (id : BoardId) : Option Board := s.boards.find? fun board ↦ board.id == id

def taskRow (id : TaskId) : Option TaskRow := s.tasks.find? fun row ↦ row.id == id

def template (id : TemplateId) : Option Template :=
  s.templates.find? fun template ↦ template.id == id

def program (id : ProgramId) : Option Program := s.programs.find? fun program ↦ program.id == id

def run (id : RunId) : Option Run := s.runs.find? fun run ↦ run.id == id

/-- How a task belongs to a run, if it does. -/
def taskLink (task : TaskId) : Option TaskLink := s.links.find? fun link ↦ link.taskId == task

/-- The board a column is on. -/
def columnBoard (column : ColumnId) : Option Board :=
  s.boards.find? fun board ↦ board.hasColumn column

/-- A task's place in a run as the task carries it. -/
def programLink (task : TaskId) : Option StepRef :=
  (s.taskLink task).map fun link ↦
    ⟨link.run, link.step, link.iteration, link.question, link.pendingAnswer⟩

/-- Fills in what the other tables know about a task. -/
def hydrate (row : TaskRow) : Task :=
  { row with
    assignees := (((s.assignees.filter fun pair ↦ pair.1 == row.id).map Prod.snd).insertionSort
      (· ≤ ·))
    dependsOn := (successors s.deps row.id).insertionSort (· ≤ ·)
    repeats := (s.repeats.find? fun r ↦ r.taskId == row.id && r.active).map RepeatRow.rule
    program := s.programLink row.id }

def task (id : TaskId) : Option Task := (s.taskRow id).map s.hydrate

/-- Every task a run made, with what the run knows about each, oldest first. -/
def runTasks (run : RunId) : List (TaskLink × Task) :=
  ((s.links.filter fun link ↦ link.run == run).filterMap fun link ↦
    (s.task link.taskId).map fun task ↦ (link, task)).insertionSort fun a b ↦ a.2.id ≤ b.2.id

/-- The row is not archived and not in its board's finished column. -/
def isOpen (row : TaskRow) : Bool :=
  !row.isArchived && (s.board row.boardId).any fun board ↦ row.columnId != board.finishedCol

/-- The dependencies of a task that are neither in their board's finished column nor archived. -/
def openDeps (task : TaskId) : List TaskId :=
  ((successors s.deps task).filter fun dep ↦ (s.taskRow dep).any s.isOpen).insertionSort (· ≤ ·)

/-- The live tasks in a column. -/
def liveIn (column : ColumnId) : List TaskRow :=
  s.tasks.filter fun row ↦ row.columnId == column && !row.isArchived

/-- Behind the last live task of a column. -/
def nextPosition (column : ColumnId) : ℤ :=
  (((s.liveIn column).map TaskRow.position).max?.getD (-10)) + 10

/-- The task was in the column at some time, by the log. -/
def wasEverIn (task : TaskId) (column : ColumnId) : Bool :=
  s.events.any fun event ↦ event.taskId == some task && event.kind.columns.2 == some column

/-- Whoever has a live task of the board assigned. -/
def assigneesOnBoard (board : BoardId) : List Uid :=
  ((s.assignees.filter fun pair ↦ (s.taskRow pair.1).any fun row ↦
    row.boardId == board && !row.isArchived).map Prod.snd).dedup

/-- The live tasks of a board assigned to somebody. -/
def tasksAssignedOnBoard (board : BoardId) (uid : Uid) : List TaskId :=
  (s.assignees.filter fun pair ↦ pair.2 == uid && (s.taskRow pair.1).any fun row ↦
    row.boardId == board && !row.isArchived).map Prod.fst

def slipSent (task : TaskId) (uid : Uid) (kind : PrintWhen × SlipKind) (anchorAt : Instant) : Bool :=
  s.slips.any fun slip ↦ slip == ⟨task, uid, kind, anchorAt⟩

/-! ### Changing -/

/-- Changes the rows of a board. -/
def modifyBoard (id : BoardId) (f : Board → Board) : Store :=
  { s with boards := s.boards.map fun board ↦ if board.id = id then f board else board }

/-- Changes the row of a task. -/
def modifyTask (id : TaskId) (f : TaskRow → TaskRow) : Store :=
  { s with tasks := s.tasks.map fun row ↦ if row.id = id then f row else row }

/-- Changes the row of a run. -/
def modifyRun (id : RunId) (f : Run → Run) : Store :=
  { s with runs := s.runs.map fun run ↦ if run.id = id then f run else run }

/-- Changes what a run remembers about a task. -/
def modifyLink (task : TaskId) (f : TaskLink → TaskLink) : Store :=
  { s with links := s.links.map fun link ↦ if link.taskId = task then f link else link }

/-- Changes the repetition of a task. -/
def modifyRepeat (task : TaskId) (f : RepeatRow → RepeatRow) : Store :=
  { s with repeats := s.repeats.map fun row ↦ if row.taskId = task then f row else row }

/-- Deletes tasks, and with them whatever refers to them: a run goes with its root and takes its links
along. -/
def dropTasks (gone : TaskRow → Bool) : Store :=
  let goneId (id : TaskId) : Bool := s.tasks.any fun row ↦ gone row && row.id == id
  let goneRun (id : RunId) : Bool := s.runs.any fun run ↦ goneId run.rootTask && run.id == id
  { s with
    tasks := s.tasks.filter fun row ↦ !gone row
    assignees := s.assignees.filter fun pair ↦ !goneId pair.1
    deps := s.deps.filter fun edge ↦ !goneId edge.1 && !goneId edge.2
    repeats := s.repeats.filter fun row ↦ !goneId row.taskId
    slips := s.slips.filter fun slip ↦ !goneId slip.taskId
    runs := s.runs.filter fun run ↦ !goneId run.rootTask
    links := s.links.filter fun link ↦ !goneId link.taskId && !goneRun link.run }

/-- Deletes a board with everything on it. Runs of one of its programs lose the program. -/
def dropBoard (id : BoardId) : Store :=
  let rest := s.dropTasks fun row ↦ row.boardId == id
  let goneProgram (program : ProgramId) : Bool :=
    s.programs.any fun p ↦ p.boardId == id && p.id == program
  let goneRun (run : RunId) : Bool := s.runs.any fun r ↦ r.boardId == id && r.id == run
  { rest with
    boards := rest.boards.filter fun board ↦ board.id != id
    templates := rest.templates.filter fun template ↦ template.boardId != id
    programs := rest.programs.filter fun program ↦ program.boardId != id
    runs := (rest.runs.filter fun run ↦ run.boardId != id).map fun run ↦
      { run with programId := run.programId.filter fun program ↦ !goneProgram program }
    links := rest.links.filter fun link ↦ !goneRun link.run }

/-! ### Reading after a change -/

section Found

variable {s : Store}

theorem taskRow_modifyTask (id other : TaskId) {f : TaskRow → TaskRow} (hf : ∀ row, (f row).id = row.id) :
    (s.modifyTask id f).taskRow other = if other = id then (s.taskRow other).map f else s.taskRow other :=
  find?_map_ite hf s.tasks id other

theorem id_of_board {id : BoardId} {board : Board} (h : s.board id = some board) : board.id = id := by
  simpa using List.find?_some h

theorem id_of_taskRow {id : TaskId} {row : TaskRow} (h : s.taskRow id = some row) : row.id = id := by
  simpa using List.find?_some h

theorem id_of_task {id : TaskId} {task : Task} (h : s.task id = some task) : task.id = id := by
  obtain ⟨row, hrow, rfl⟩ := Option.map_eq_some_iff.mp h
  exact id_of_taskRow hrow

/-- A task as it is loaded carries its row. -/
theorem toTaskRow_of_task {id : TaskId} {task : Task} (h : s.task id = some task) :
    s.taskRow id = some task.toTaskRow := by
  obtain ⟨row, hrow, rfl⟩ := Option.map_eq_some_iff.mp h
  exact hrow

end Found

end Store

/-! ### Transactions -/

/-- What is done under the lock. -/
abbrev Work (α : Type) : Type := Tx Store AppError α

/-- Goes on only when the store satisfies a condition. -/
def demand (p : Store → Bool) (error : AppError) : Work Unit := do
  let holds ← Tx.read p
  Tx.check (holds = true) error

/-- A section under the lock: a transaction that is rolled back when it fails. -/
def commit {α : Type} (work : Work α) (s : Store) : Except AppError α × Store :=
  match work s with
  | .ok (a, s') => (.ok a, s')
  | .error error => (.error error, s)

@[simp] theorem demand_eq_ok {p : Store → Bool} {error : AppError} {s : Store} {r : Unit × Store} :
    demand p error s = .ok r ↔ p s = true ∧ ((), s) = r := by
  simp [demand]

/-- A section that answers well has done its work. -/
theorem commit_eq_ok {α : Type} {work : Work α} {s s' : Store} {a : α}
    (h : commit work s = (.ok a, s')) : work s = .ok (a, s') := by
  unfold commit at h
  split at h
  · rename_i hwork
    cases h
    exact hwork
  · cases h

/-- A section leaves what its work leaves, or everything as it was. -/
theorem snd_commit {α : Type} (work : Work α) (s : Store) :
    (commit work s).2 = s ∨ ∃ a, work s = .ok (a, (commit work s).2) := by
  unfold commit
  split
  · rename_i a s' hwork
    exact .inr ⟨a, hwork⟩
  · exact .inl rfl

end Taskologic.Daemon
