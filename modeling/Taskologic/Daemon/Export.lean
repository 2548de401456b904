import Taskologic.Daemon.Analytics
import Taskologic.Daemon.Transfer

/-!
# Exporting boards

One board by name, every board, or the whole server, read straight from the tables into a file
(`Store.exportEverything`). A board goes with everything that hangs off it, ids as they are
(`Store.bundle`), and with the accounts of the people it mentions.

A task's trail is in the file as it is in the log: `columnChanges_exportBoards`.

Scope. As in the import, the text of the file and what was printed by a user's own settings are left out, and
so are the names of people without an account. Slips of one task and person come in the order of their table.
-/

set_option autoImplicit false
set_option relaxedAutoImplicit false

namespace Taskologic.Daemon

open Taskologic.Core Taskologic.Library

/-- What a command that moves files in or out is refused with. -/
inductive TransferError where
  | noBoardCalled (name : Text)
  /-- Two boards with one name is a thing the UI allows. -/
  | severalBoardsCalled (name : Text)
  deriving DecidableEq, Repr

/-- How the database orders names. -/
def nameKey (name : Text) : Text := name.map Char.toLower

/-! ### The people a file mentions -/

/-- The people print rules name. -/
def printUids (rules : List PrintRule) : List Uid :=
  rules.flatMap fun rule ↦ match rule.recipients with
    | .users uids => uids
    | .assignees | .creator => []

def stepUids (step : Step) : List Uid :=
  (match step.assign with
    | .users uids => uids
    | .starter | .nobody => []) ++ printUids step.print

def eventUids (event : EventRow) : List Uid :=
  event.actor.toList ++ match event.kind with
    | .memberAdded uid | .memberRemoved uid _ => [uid]
    | _ => []

/-- Everybody a board mentions, wherever they sit. -/
def BoardBundle.uids (bundle : BoardBundle) : List Uid :=
  bundle.board.ownerUid :: bundle.board.members ++
    (bundle.templates.flatMap fun template ↦
      template.ownerUid :: template.draft.assignees ++ printUids template.draft.printRules) ++
    (bundle.programs.flatMap fun program ↦ program.ownerUid :: program.steps.flatMap stepUids) ++
    (bundle.tasks.flatMap fun task ↦ task.createdBy :: task.assignees ++ printUids task.printRules) ++
    (bundle.runs.flatMap fun run ↦ run.run.startedBy :: run.run.steps.flatMap stepUids) ++
    bundle.slips.map SlipRow.uid ++ bundle.events.flatMap eventUids

namespace Store

variable (s : Store)

/-- Everything a board has. -/
def bundle (board : Board) : BoardBundle :=
  let onBoard (task : TaskId) : Bool := (s.taskRow task).any fun row ↦ row.boardId == board.id
  { board
    templates := (s.templates.filter fun template ↦ template.boardId == board.id).insertionSort fun a b ↦
      nameKey a.name < nameKey b.name ∨ nameKey a.name = nameKey b.name ∧ a.id ≤ b.id
    programs := (s.programs.filter fun program ↦ program.boardId == board.id).insertionSort fun a b ↦
      nameKey a.name < nameKey b.name ∨ nameKey a.name = nameKey b.name ∧ a.id ≤ b.id
    tasks := ((s.tasks.filter fun row ↦ row.boardId == board.id).map s.hydrate).insertionSort fun a b ↦
      a.id ≤ b.id
    repeats := (s.repeats.filter fun row ↦ onBoard row.taskId).insertionSort fun a b ↦ a.taskId ≤ b.taskId
    runs := ((s.runs.filter fun run ↦ run.boardId == board.id).insertionSort fun a b ↦ a.id ≤ b.id).map fun run ↦
      ⟨run, (s.links.filter fun link ↦ link.run == run.id).insertionSort fun a b ↦ a.taskId ≤ b.taskId⟩
    slips := (s.slips.filter fun slip ↦ onBoard slip.taskId).insertionSort fun a b ↦
      a.taskId < b.taskId ∨ a.taskId = b.taskId ∧ a.uid ≤ b.uid
    events := s.events.filter fun event ↦ event.boardId == board.id }

/-- Some boards, with the accounts of some people. -/
def exportBoards (boards : List Board) (everyone : Bool) : ImportFile :=
  let bundles := boards.map s.bundle
  let mentioned := bundles.flatMap BoardBundle.uids
  { users := (s.users.filter fun user ↦ everyone || mentioned.contains user.uid).insertionSort fun a b ↦
      a.uid ≤ b.uid
    boards := bundles }

def allBoards : List Board := s.boards.insertionSort fun a b ↦ a.id ≤ b.id

/-- The one board of that name, whatever the case. -/
def boardNamed (name : Text) : Except TransferError Board :=
  match s.boards.filter fun board ↦ sameName board.name (trim name) with
  | [] => .error (.noBoardCalled name)
  | [board] => .ok board
  | _ => .error (.severalBoardsCalled name)

/-- The boards an export takes along: every one, or the one of a name. -/
def exportedBoards : Option Text → Except TransferError (List Board)
  | none => .ok s.allBoards
  | some name =>
    if Core.eqIgnoreAsciiCase name (text "all") then .ok s.allBoards else (s.boardNamed name).map ([·])

/-- The whole server without a name, one board by name, every board with `all`. -/
def exportEverything (name : Option Text) : Except TransferError ImportFile :=
  (s.exportedBoards name).map fun boards ↦ s.exportBoards boards name.isNone

end Store

/-! ### What is in the file -/

namespace ImportFile

variable (file : ImportFile)

/-- Every task of the file, in the order in which the tasks arrive. -/
def tasks : List Task := file.boards.flatMap BoardBundle.tasks

/-- The columns of the file, in the order in which they arrive. -/
def columnIds : List ColumnId := file.boards.flatMap fun bundle ↦ bundle.board.columns.map Column.id

def events : List EventRow := file.boards.flatMap BoardBundle.events

/-- The column changes of a task, in the order of the file. -/
def columnChanges (task : TaskId) : List Transition := changesOf task file.events

end ImportFile

section Exported

variable {s : Store} {boards : List Board} {everyone : Bool}

theorem tasks_exportBoards : (s.exportBoards boards everyone).tasks =
    boards.flatMap fun board ↦ (s.bundle board).tasks := by
  simp [ImportFile.tasks, Store.exportBoards, List.flatMap_map]

theorem mem_tasks_bundle {board : Board} {task : Task} : task ∈ (s.bundle board).tasks ↔
    ∃ row ∈ s.tasks, row.boardId = board.id ∧ s.hydrate row = task := by
  simp [Store.bundle, and_assoc]

theorem events_exportBoards : (s.exportBoards boards everyone).events =
    boards.flatMap fun board ↦ s.events.filter fun event ↦ event.boardId == board.id := by
  simp [ImportFile.events, Store.exportBoards, List.flatMap_map, Store.bundle]

/-- What belongs to one of several parts is found among the parts as it is found in the whole. -/
theorem flatMap_filter_of_nodup {α β κ : Type} [DecidableEq κ] {parts : List β} {key : β → κ} {part : β}
    (hparts : (parts.map key).Nodup) (hpart : part ∈ parts) {entries : List α} {p : α → Bool} {keyOf : α → κ}
    (hkey : ∀ a ∈ entries, p a = true → keyOf a = key part) :
    (parts.flatMap fun other ↦ (entries.filter fun a ↦ keyOf a == key other).filter p) = entries.filter p := by
  have hself : (entries.filter fun a ↦ keyOf a == key part).filter p = entries.filter p := by
    rw [List.filter_filter]
    refine List.filter_congr fun a ha ↦ ?_
    cases hp : p a with
    | false => rfl
    | true => simp [hkey a ha hp]
  have hnone (other : β) (hother : key other ≠ key part) :
      (entries.filter fun a ↦ keyOf a == key other).filter p = [] := by
    refine List.filter_eq_nil_iff.mpr fun a ha hp ↦ hother ?_
    obtain ⟨hmem, hkeyed⟩ := List.mem_filter.mp ha
    rw [← beq_iff_eq.mp hkeyed, hkey a hmem hp]
  induction parts with
  | nil => cases hpart
  | cons first parts ih =>
    obtain ⟨hfirst, hrest⟩ := List.nodup_cons.mp hparts
    rw [List.flatMap_cons]
    rcases List.mem_cons.mp hpart with rfl | hlater
    · have hothers : (parts.flatMap fun other ↦ (entries.filter fun a ↦ keyOf a == key other).filter p) = [] :=
        List.flatMap_eq_nil_iff.mpr fun other hother ↦
          hnone other fun hsame ↦ hfirst (hsame ▸ List.mem_map_of_mem hother)
      rw [hself, hothers, List.append_nil]
    · rw [hnone first fun hsame ↦ hfirst (hsame ▸ List.mem_map_of_mem hlater), ih hrest hlater, List.nil_append]

/-- The trail of a task whose history is its board's is in the file as it is in the log. -/
theorem columnChanges_exportBoards {board : Board} {task : TaskId} (hboards : (boards.map Board.id).Nodup)
    (hboard : board ∈ boards)
    (hown : ∀ event ∈ s.events, event.taskId = some task → event.boardId = board.id) :
    (s.exportBoards boards everyone).columnChanges task = s.columnChanges task := by
  rw [ImportFile.columnChanges, events_exportBoards, Store.columnChanges, changesOf, changesOf,
    List.filter_flatMap]
  congr 1
  refine flatMap_filter_of_nodup hboards hboard fun event hevent htask ↦ hown event hevent ?_
  simpa using (Bool.and_eq_true_iff.mp htask).1

end Exported

end Taskologic.Daemon
