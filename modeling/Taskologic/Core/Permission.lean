import Taskologic.Core.Task

/-!
# The permission matrix

Every check the daemon makes goes through `checkBoard` or `checkTask`, or through one of the checks for
templates, programs and runs. Whoever is not a member of a private board is told `boardNotVisible`, for
every action; an administrator may unlock and delete the board and is told `adminNotMember` for the rest.
-/

set_option autoImplicit false
set_option relaxedAutoImplicit false

namespace Taskologic.Core

open Library

/-- Who is asking. -/
structure Actor where
  uid : Uid
  isAdmin : Bool
  deriving DecidableEq, Repr

/-- Actions that only need the board. -/
inductive BoardAction where
  | view
  | addTask
  | manageColumns
  | editSettings
  | manageMembers
  | deleteBoard
  | toggleLock
  | togglePrivate
  | purgeTasks
  deriving DecidableEq, Repr

/-- Actions on one task. -/
inductive TaskAction where
  | edit
  | move
  | delete
  | restore
  | purge
  deriving DecidableEq, Repr

/-- Why something was refused. -/
inductive Denial where
  /-- Private board, not a member. -/
  | boardNotVisible
  /-- An administrator outside a private board asked for its content. -/
  | adminNotMember
  /-- Reserved for the owner and administrators. Carries the action as a phrase. -/
  | ownerOrAdminOnly (what : Text)
  | lockedBoard
  | notTaskEditor
  | notTaskDeleter
  | notTemplateManager
  | notProgramManager
  | notRunCanceller
  deriving DecidableEq, Repr

def ownerOrAdmin (privileged : Bool) (what : Text) : Except Denial Unit :=
  ensure privileged (.ownerOrAdminOnly what)

/-- The actor can see the board's content. -/
def canView (actor : Actor) (board : Board) : Bool := board.isMember actor.uid

/-- An administrator or the owner. -/
def privileged (actor : Actor) (board : Board) : Bool :=
  actor.isAdmin || board.ownerUid == actor.uid

/-- What whoever is not a member is told. -/
def outsider (actor : Actor) : Denial := if actor.isAdmin then .adminNotMember else .boardNotVisible

def checkBoard (action : BoardAction) (actor : Actor) (board : Board) : Except Denial Unit := do
  ensure (board.isMember actor.uid ∨
    actor.isAdmin ∧ (action = .deleteBoard ∨ action = .toggleLock)) (outsider actor)
  match action with
  | .view | .addTask => .ok ()
  | .manageColumns =>
    ownerOrAdmin (privileged actor board) (text "add, edit or remove columns")
  | .editSettings => ownerOrAdmin (privileged actor board) (text "edit board settings")
  | .manageMembers => ownerOrAdmin (privileged actor board) (text "manage members")
  | .toggleLock => ownerOrAdmin (privileged actor board) (text "lock or unlock the board")
  | .togglePrivate =>
    ownerOrAdmin (privileged actor board) (text "change whether the board is private")
  | .purgeTasks =>
    ownerOrAdmin (privileged actor board) (text "permanently delete archived tasks")
  | .deleteBoard => do
    ownerOrAdmin (privileged actor board) (text "delete the board")
    ensure (board.isLocked = false) .lockedBoard

def checkTask (action : TaskAction) (actor : Actor) (board : Board) (task : Task) :
    Except Denial Unit := do
  ensure (board.isMember actor.uid) (outsider actor)
  match action with
  | .move | .restore => .ok ()
  | .edit =>
    ensure (privileged actor board ∨ task.isCreator actor.uid ∨ task.isAssignee actor.uid)
      .notTaskEditor
  | .delete => ensure (privileged actor board ∨ task.isCreator actor.uid) .notTaskDeleter
  | .purge => ownerOrAdmin (privileged actor board) (text "permanently delete tasks")

/-- What belongs to somebody is managed by them, the board owner or an administrator. -/
def checkManage (denial : Denial) (actor : Actor) (board : Board) (ownerUid : Uid) :
    Except Denial Unit := do
  ensure (board.isMember actor.uid) (outsider actor)
  ensure (privileged actor board ∨ ownerUid = actor.uid) denial

def checkTemplateManage : Actor → Board → Uid → Except Denial Unit :=
  checkManage .notTemplateManager

def checkProgramManage : Actor → Board → Uid → Except Denial Unit :=
  checkManage .notProgramManager

def checkRunCancel : Actor → Board → Uid → Except Denial Unit := checkManage .notRunCanceller

/-! ### Who passes -/

@[simp] theorem checkBoard_view_eq_ok {actor : Actor} {board : Board} :
    checkBoard .view actor board = .ok () ↔ board.isMember actor.uid = true := by
  simp [checkBoard]

theorem isMember_of_checkTask {action : TaskAction} {actor : Actor} {board : Board} {task : Task}
    (h : checkTask action actor board task = .ok ()) : board.isMember actor.uid = true := by
  simp only [checkTask, bind_unit_eq_ok, ensure_eq_ok] at h
  exact h.1

end Taskologic.Core
