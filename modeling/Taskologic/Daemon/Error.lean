import Taskologic.Core.Permission
import Taskologic.Core.Template
import Taskologic.Core.Transition

/-!
# Errors of the daemon

What a request is refused with. Where the source renders a sentence for the user, the error here
carries the values the sentence is made from. Errors of the board, of a task and of a move become errors
of the daemon by `AppError.ofBoard`, `ofTask` and `ofMove`, and a denial by `ofDenial`: a board that is not
visible is answered as one that does not exist.

Scope. The error codes of the wire protocol are a relabelling of these constructors and are left
out.
-/

set_option autoImplicit false
set_option relaxedAutoImplicit false

namespace Taskologic.Daemon

open Taskologic.Core

/-- What was not found. -/
inductive Missing where
  | user (uid : Uid)
  | board
  | column
  | task
  | template
  | program
  | run
  deriving DecidableEq, Repr

/-- What a request that cannot be carried out is told. -/
inductive BadRequest where
  /-- A fan-out list is given for a step that has none. -/
  | doesNotFanOut (key : Text)
  /-- A fan-out list without a visible entry. -/
  | noEntry (key : Text)
  | noRootStep
  | board (error : BoardError)
  | task (error : TaskError)
  | move (error : MoveError)
  | program (error : ProgramError)
  | template (error : TemplateError)
  | repeats (error : RepeatError)
  /-- A role of a new board names a column that is not in the list. -/
  | columnIndex (role : ColumnRole) (index : ℕ)
  | columnNotOnBoard (column : ColumnId)
  | noColumns
  | columnOrder
  | ownerStays
  | ownAdminFlag
  /-- Somebody named has never logged in. -/
  | neverLoggedIn (uid : Uid)
  /-- Somebody to print for has never logged in. -/
  | cannotBePrintedFor (uid : Uid)
  /-- The same for the people a step names. -/
  | stepNeverLoggedIn (key : Text) (uid : Uid)
  | stepCannotBePrintedFor (key : Text) (uid : Uid)
  | noDependency (dep : TaskId)
  | cycle (dep : TaskId)
  | noChecklistItem
  | alreadyArchived
  | purgeNeedsArchive
  | notArchived
  | emptyTemplateName
  | noRepetition
  | noQuestion
  | notAnAnswer (answer : Text)
  | answeredAlready
  /-- The program a task belongs to is over. -/
  | programOver
  /-- The run to cancel is over. -/
  | runOver
  /-- A file holds a board that is here already. -/
  | boardHere (name : Text)
  /-- A file carries a short id that is taken. -/
  | shortIdTaken (id : ShortId)
  /-- A role or a task of a file is in a column the file does not hold. -/
  | damagedRole (role : ColumnRole)
  | damagedTask (id : ShortId)
  deriving DecidableEq, Repr

inductive AppError where
  | notFound (what : Missing)
  | denied (denial : Denial)
  | badRequest (reason : BadRequest)
  /-- The task changed since it was loaded. -/
  | conflict (current : Task)
  | blocked («open» : List TaskId)
  | memberHasTasks (tasks : List TaskId)
  /-- The database refused, or there was no free short id. -/
  | internal
  deriving DecidableEq, Repr

namespace AppError

def ofBoard (error : BoardError) : AppError := .badRequest (.board error)

def ofTask (error : TaskError) : AppError := .badRequest (.task error)

def ofMove : MoveError → AppError
  | .blockedByDependencies deps => .blocked deps
  | .unknownColumn column => .badRequest (.move (.unknownColumn column))
  | .taskArchived => .badRequest (.move .taskArchived)

/-- Does not leak that there is a board. -/
def ofDenial (denial : Denial) : AppError :=
  if denial = .boardNotVisible then .notFound .board else .denied denial

end AppError

end Taskologic.Daemon
