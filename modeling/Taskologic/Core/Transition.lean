import Taskologic.Core.Task

/-!
# Column transitions

What moving a task means, what a scan does and where a restored task goes: decisions without side
effects. `planMove` is given the dependencies that are still open and refuses to finish the task while
there are any, unless it is told to override them.
-/

set_option autoImplicit false
set_option relaxedAutoImplicit false

namespace Taskologic.Core

open Library

/-- Everything the daemon needs to apply a column move. -/
structure MovePlan where
  source : ColumnId
  destination : ColumnId
  /-- New value of the finish moment. -/
  finishedAt : Option Instant
  /-- Dependencies that were still open and got overridden. -/
  overrodeDeps : List TaskId
  deriving DecidableEq, Repr

inductive MoveError where
  | unknownColumn (column : ColumnId)
  | taskArchived
  /-- The client shows these and offers an override. -/
  | blockedByDependencies («open» : List TaskId)
  deriving DecidableEq, Repr

/-- The move brings the task into the finished column. -/
def enteringFinished (board : Board) (task : Task) (destination : ColumnId) : Bool :=
  destination == board.finishedCol && task.columnId != board.finishedCol

/-- The finish moment after a move. -/
def movedFinishedAt (board : Board) (task : Task) (destination : ColumnId) (now : Instant) :
    Option Instant :=
  if enteringFinished board task destination then some now
  else if task.columnId = board.finishedCol ∧ destination ≠ board.finishedCol then none
  else task.finishedAt

/-- Decide a move. `openDeps` is the part of the task's dependencies that is not done. -/
def planMove (board : Board) (task : Task) (destination : ColumnId) (openDeps : List TaskId)
    (overrideDeps : Bool) (now : Instant) : Except MoveError MovePlan := do
  ensure (task.isArchived = false) .taskArchived
  ensure (board.hasColumn destination) (.unknownColumn destination)
  ensure (enteringFinished board task destination → openDeps ≠ [] → overrideDeps)
    (.blockedByDependencies openDeps)
  .ok ⟨task.columnId, destination, movedFinishedAt board task destination now,
    if enteringFinished board task destination then openDeps else []⟩

/-- A move that is planned, and the plan. -/
theorem planMove_eq_ok {board : Board} {task : Task} {destination : ColumnId}
    {openDeps : List TaskId} {overrideDeps : Bool} {now : Instant} {plan : MovePlan} :
    planMove board task destination openDeps overrideDeps now = .ok plan ↔
      task.isArchived = false ∧ board.hasColumn destination = true ∧
        (enteringFinished board task destination = true → openDeps ≠ [] → overrideDeps = true) ∧
        plan = ⟨task.columnId, destination, movedFinishedAt board task destination now,
          if enteringFinished board task destination then openDeps else []⟩ := by
  simp only [planMove, bind_unit_eq_ok, ensure_eq_ok, Except.ok.injEq, @eq_comm _ plan]

/-! ### Scans -/

inductive ScanRefusal where
  | alreadyFinished
  | archived
  deriving DecidableEq, Repr

/-- Which column a scan wants the task in. -/
def scanTarget (action : ScanAction) (board : Board) (task : Task) :
    Except ScanRefusal ColumnId := do
  ensure (task.isArchived = false) .archived
  ensure (task.columnId ≠ board.finishedCol) .alreadyFinished
  match action with
  | .startPause =>
    .ok (if task.columnId = board.startedCol then board.pausedCol else board.startedCol)
  | .finish | .yes | .no | .choice _ | .finishChildren => .ok board.finishedCol

/-- Where a restored task goes: back where it was, or the first column if that column is gone. -/
def restoreColumn (board : Board) (task : Task) : Option ColumnId :=
  match task.archivedFromCol with
  | some column => if board.hasColumn column then some column else board.firstColumn.map Column.id
  | none => board.firstColumn.map Column.id

end Taskologic.Core
