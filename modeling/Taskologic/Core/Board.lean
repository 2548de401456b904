import Taskologic.Core.Ids
import Taskologic.Core.Moment
import Taskologic.Library.Checks
import Taskologic.Library.Extremes

/-!
# Boards and columns

A board names three of its columns for the roles started, paused and finished. A column may hold
more than one role. `planColumnRemoval` decides what removing a column means: tasks never vanish and
roles never dangle.
-/

set_option autoImplicit false
set_option relaxedAutoImplicit false

namespace Taskologic.Core

open Library

structure Column where
  id : ColumnId
  name : Text
  /-- Manual order. Gaps are fine, only relative order matters. -/
  position : ℤ
  /-- Show tasks by due date instead of their manual order. -/
  sortByDue : Bool
  deriving DecidableEq, Repr

/-- What a task card shows on a board. -/
structure CardFields where
  startDate : Bool
  dueDate : Bool
  assignees : Bool
  dependencies : Bool
  description : Bool
  shortId : Bool
  estimate : Bool
  deriving DecidableEq, Repr

/-- `CardFields::default`. -/
def CardFields.default : CardFields := ⟨false, true, true, true, false, false, false⟩

/-- The three columns every board designates. -/
inductive ColumnRole where
  | started
  | paused
  | finished
  deriving DecidableEq, Repr

/-- `ColumnRole::ALL`. -/
def ColumnRole.all : List ColumnRole := [started, paused, finished]

structure Board where
  id : BoardId
  /-- Six characters a barcode can name the board by. -/
  shortId : ShortId
  name : Text
  description : Text
  ownerUid : Uid
  isLocked : Bool
  isPrivate : Bool
  archiveAfterSecs : ℤ
  purgeDeletedAfterSecs : ℤ
  cardFields : CardFields
  startedCol : ColumnId
  pausedCol : ColumnId
  finishedCol : ColumnId
  columns : List Column
  members : List Uid
  deriving DecidableEq, Repr

inductive BoardError where
  | emptyName
  | nameTooLong
  | noColumns
  | emptyColumnName
  | duplicateColumnName (name : Text)
  | designatedColumnMissing (role : ColumnRole)
  | negativeArchiveDelay
  | negativePurgeDelay
  | columnNotOnBoard (column : ColumnId)
  | tasksNeedDestination
  | designatedNeedsReplacement (role : ColumnRole)
  | destinationIsRemovedColumn
  | ownerIsAlwaysMember
  deriving DecidableEq, Repr

/-- `MAX_NAME_CHARS`. -/
def Board.maxNameChars : ℕ := 120

def validateName (name : Text) : Except BoardError Unit := do
  ensure (trim name ≠ []) .emptyName
  ensure ((trim name).length ≤ Board.maxNameChars) .nameTooLong

/-- Every name is visible and none is there twice, neither among the rest nor among those seen, which
are kept trimmed and lowercase. -/
def checkColumnNames (seen : List Text) : List Text → Except BoardError Unit
  | [] => .ok ()
  | name :: rest => do
    ensure (trim name ≠ []) .emptyColumnName
    ensure (toLowercase (trim name) ∉ seen) (.duplicateColumnName (trim name))
    checkColumnNames (seen ++ [toLowercase (trim name)]) rest

def validateColumnNames (names : List Text) : Except BoardError Unit := do
  ensure (names ≠ []) .noColumns
  checkColumnNames [] names

namespace Board

variable (board : Board)

/-- Owner always, everyone on a public board, the member list otherwise. -/
def isMember (uid : Uid) : Bool :=
  uid == board.ownerUid || !board.isPrivate || board.members.contains uid

def column (id : ColumnId) : Option Column := board.columns.find? fun c ↦ c.id == id

def hasColumn (id : ColumnId) : Bool := (board.column id).isSome

/-- The leftmost column, where new and repeated tasks land: the first of those with the least
position. -/
def firstColumn : Option Column := firstMinBy Column.position board.columns

def columnFor : ColumnRole → ColumnId
  | .started => board.startedCol
  | .paused => board.pausedCol
  | .finished => board.finishedCol

/-- Every role a column holds. -/
def rolesOf (column : ColumnId) : List ColumnRole :=
  ColumnRole.all.filter fun role ↦ board.columnFor role == column

def validate : Except BoardError Unit := do
  validateName board.name
  validateColumnNames (board.columns.map Column.name)
  checkAll (fun role ↦ ensure (board.hasColumn (board.columnFor role))
    (.designatedColumnMissing role)) ColumnRole.all
  ensure (0 ≤ board.archiveAfterSecs) .negativeArchiveDelay
  ensure (0 ≤ board.purgeDeletedAfterSecs) .negativePurgeDelay
  ensure (board.ownerUid ∈ board.members) .ownerIsAlwaysMember

/-- Who holds a task on the board but would lose access if it went private, in order and each once. -/
def wouldLoseAccess (assigned : List Uid) : List Uid :=
  ((assigned.filter fun uid ↦ uid != board.ownerUid && !board.members.contains uid).insertionSort
    (· ≤ ·)).dedup

end Board

/-- A board with four columns, Todo, Doing, Waiting and Done, with the obvious roles. -/
def boardWithMembers (owner : Uid) (members : List Uid) : Board where
  id := 1
  shortId := .fromIndex 0
  name := text "Test board"
  description := []
  ownerUid := owner
  isLocked := false
  isPrivate := true
  archiveAfterSecs := 7 * 24 * 60 * 60
  purgeDeletedAfterSecs := 30 * 24 * 60 * 60
  cardFields := .default
  startedCol := 2
  pausedCol := 3
  finishedCol := 4
  columns := [⟨1, text "Todo", 0, false⟩, ⟨2, text "Doing", 10, false⟩,
    ⟨3, text "Waiting", 20, false⟩, ⟨4, text "Done", 30, false⟩]
  members := if members.contains owner then members else owner :: members

/-! ### Removing a column -/

/-- Everything the daemon has to do to remove a column. -/
structure ColumnRemoval where
  removed : ColumnId
  moveTasksTo : Option ColumnId
  reassignRoles : List (ColumnRole × ColumnId)
  deriving DecidableEq, Repr

/-- Where one role of the removed column goes. -/
def reassignRole (board : Board) (column : ColumnId) (replacements : List (ColumnRole × ColumnId))
    (role : ColumnRole) : Except BoardError (ColumnRole × ColumnId) :=
  match replacements.find? fun pair ↦ pair.1 == role with
  | none => .error (.designatedNeedsReplacement role)
  | some (_, replacement) => do
    ensure (replacement ≠ column) .destinationIsRemovedColumn
    ensure (board.hasColumn replacement) (.columnNotOnBoard replacement)
    .ok (role, replacement)

/-- Removing a column never silently deletes tasks and never leaves a role dangling. The
replacements must cover every role the column holds. -/
def planColumnRemoval (board : Board) (column : ColumnId) (hasTasks : Bool)
    (moveTasksTo : Option ColumnId) (replacements : List (ColumnRole × ColumnId)) :
    Except BoardError ColumnRemoval := do
  ensure (board.hasColumn column) (.columnNotOnBoard column)
  ensure (1 < board.columns.length) .noColumns
  ensure (hasTasks = false ∨ moveTasksTo.isSome) .tasksNeedDestination
  match moveTasksTo with
  | none => .ok ()
  | some destination => do
    ensure (destination ≠ column) .destinationIsRemovedColumn
    ensure (board.hasColumn destination) (.columnNotOnBoard destination)
  let reassignRoles ← (board.rolesOf column).mapM (reassignRole board column replacements)
  .ok ⟨column, if hasTasks then moveTasksTo else none, reassignRoles⟩

/-- What was checked for a removal that is planned, and what it does. -/
structure ColumnRemoval.Planned (board : Board) (column : ColumnId) (plan : ColumnRemoval) : Prop where
  removed : plan.removed = column
  hasColumn : board.hasColumn column = true
  others : 1 < board.columns.length
  moveTasksTo : ∀ destination, plan.moveTasksTo = some destination →
    destination ≠ column ∧ board.hasColumn destination = true
  roles : plan.reassignRoles.map Prod.fst = board.rolesOf column
  replacements : ∀ pair ∈ plan.reassignRoles, pair.2 ≠ column ∧ board.hasColumn pair.2 = true

theorem fst_of_reassignRole {board : Board} {column : ColumnId} {replacements : List (ColumnRole × ColumnId)}
    {role : ColumnRole} {pair : ColumnRole × ColumnId} (h : reassignRole board column replacements role = .ok pair) :
    pair.1 = role ∧ pair.2 ≠ column ∧ board.hasColumn pair.2 = true := by
  unfold reassignRole at h
  split at h
  · cases h
  · simp only [bind_unit_eq_ok, ensure_eq_ok, Except.ok.injEq] at h
    obtain ⟨hother, hthere, rfl⟩ := h
    exact ⟨rfl, hother, hthere⟩

/-- The roles of a removed column go to other columns of the board, each to one. -/
theorem reassigned_of_mapM {board : Board} {column : ColumnId} {replacements : List (ColumnRole × ColumnId)}
    {held : List ColumnRole} {roles : List (ColumnRole × ColumnId)}
    (h : held.mapM (reassignRole board column replacements) = .ok roles) :
    roles.map Prod.fst = held ∧ ∀ pair ∈ roles, pair.2 ≠ column ∧ board.hasColumn pair.2 = true := by
  have hanswers := forall₂_of_mapM h
  clear h
  induction hanswers with
  | nil => exact ⟨rfl, fun _ hpair ↦ (List.not_mem_nil hpair).elim⟩
  | cons hfirst _ ih =>
    obtain ⟨hrole, hplace⟩ := fst_of_reassignRole hfirst
    exact ⟨congrArg₂ List.cons hrole ih.1, List.forall_mem_cons.mpr ⟨hplace, ih.2⟩⟩

theorem planned_of_planColumnRemoval {board : Board} {column : ColumnId} {hasTasks : Bool}
    {moveTasksTo : Option ColumnId} {replacements : List (ColumnRole × ColumnId)} {plan : ColumnRemoval}
    (h : planColumnRemoval board column hasTasks moveTasksTo replacements = .ok plan) :
    plan.Planned board column := by
  simp only [planColumnRemoval, bind_unit_eq_ok, ensure_eq_ok] at h
  obtain ⟨hthere, hothers, -, h⟩ := h
  cases moveTasksTo with
  | none =>
    obtain ⟨_, -, h⟩ := bind_eq_ok.mp h
    obtain ⟨roles, hroles, h⟩ := bind_eq_ok.mp h
    obtain rfl := Except.ok.inj h
    obtain ⟨hheld, hplaces⟩ := reassigned_of_mapM hroles
    exact ⟨rfl, hthere, hothers, fun _ hmove ↦ by simp at hmove, hheld, hplaces⟩
  | some destination =>
    simp only [bind_unit_eq_ok, ensure_eq_ok] at h
    obtain ⟨hother, hto, h⟩ := h
    obtain ⟨roles, hroles, h⟩ := bind_eq_ok.mp h
    obtain rfl := Except.ok.inj h
    obtain ⟨hheld, hplaces⟩ := reassigned_of_mapM hroles
    refine ⟨rfl, hthere, hothers, fun d hmove ↦ ?_, hheld, hplaces⟩
    dsimp only at hmove
    split_ifs at hmove
    obtain rfl := Option.some.inj hmove
    exact ⟨hother, hto⟩

end Taskologic.Core
