import Taskologic.Library.Outcome
import Taskologic.Daemon.ColumnOrder

/-!
# Reordering a column

The client puts a task somewhere else in its column by sending a position for it: next to a neighbour's, outside of the
first or the last one, or between the two cards a drop falls between. Each function here computes that position from the
tasks on screen. The server writes it and lists the column by position and id.

`Reorder.Lands` says that the task comes to stand where it was put and the others stay in order. It does exactly if there
is room there (`reorder_lands_iff`): a position next to a neighbour's may lie at or behind that of the task beyond, and
between two positions there may be none.

Scope. An overflow is a panic, as in a build that checks for it. A screen is a number of lines; where a card lies across
is left out.
-/

set_option autoImplicit false
set_option relaxedAutoImplicit false

namespace Taskologic.Client

open Library Core Daemon

/-- The lines a card takes up on screen. -/
structure Area where
  y : ℕ
  height : ℕ
  deriving DecidableEq, Repr

/-- `BoardView`, as far as reordering looks at it. -/
structure BoardView where
  board : Board
  tasks : List Task
  /-- The first column on screen. -/
  colOffset : ℕ
  /-- How many cards of a column are scrolled off above. -/
  colScroll : List ℕ
  /-- The cards on screen, by column. -/
  taskAreas : List (List (TaskId × Area))
  picked : Option TaskId

/-- `Request::MoveTask`, as far as it says where a task goes. -/
structure MoveRequest where
  task : TaskId
  toColumn : ColumnId
  position : Option ℤ
  deriving DecidableEq, Repr

/-- What a request to move a task starts with: it is sent with an answer, or the question of the task is asked. -/
inductive MoveStart where
  | send (request : MoveRequest) (answer : Option Text)
  | ask (request : MoveRequest)
  deriving DecidableEq, Repr

def MoveStart.request : MoveStart → MoveRequest
  | send request _ | ask request => request

/-- What came of a key or a code: a value, or nothing with what the toast says, if anything. -/
abbrev Reply (α : Type) : Type := Outcome (Option Text) α

/-! ### Numbers and lists -/

def InI64 (n : ℤ) : Prop := -2 ^ 63 ≤ n ∧ n < 2 ^ 63

instance : DecidablePred InI64 := fun n ↦ inferInstanceAs (Decidable (-2 ^ 63 ≤ n ∧ n < 2 ^ 63))

/-- A sum or difference of type `i64`. -/
def checkedI64 (n : ℤ) : Reply ℤ := if InI64 n then .ok n else .panicked

/-- `v[i]`. -/
def readAt {α : Type} (v : List α) (i : ℕ) : Reply α :=
  match v[i]? with
  | some a => .ok a
  | none => .panicked

/-! ### The board on screen -/

/-- What a column that is sorted by due date is ordered by. Tasks without a due date sink to the bottom. -/
def dueKey (row : TaskRow) : Bool ×ₗ WithBot ℤ ×ₗ ℤ ×ₗ TaskId := toLex (row.dueAt.isNone, toLex (row.dueAt, manualKey row))

namespace BoardView

variable (view : BoardView)

/-- `tasks_in`: the tasks of a column in display order. -/
def tasksIn (idx : ℕ) : List Task :=
  match view.board.columns[idx]? with
  | none => []
  | some column =>
    let v := view.tasks.filter fun t ↦ t.columnId == column.id && !t.isArchived
    if column.sortByDue then sortByKey (fun t ↦ dueKey t.toTaskRow) v
    else sortByKey (fun t ↦ manualKey t.toTaskRow) v

def columnId (idx : ℕ) : Option ColumnId := (view.board.columns[idx]?).map Column.id

/-- The column a task is in, from the left. -/
def columnOf (task : Task) : ℕ := (view.board.columns.findIdx? fun c ↦ c.id == task.columnId).getD 0

/-- The place of a task among some. -/
def placeOf (siblings : List Task) (task : TaskId) : ℕ := (siblings.findIdx? fun t ↦ t.id == task).getD 0

/-- The position that puts a card into a slot of the others. -/
def slotPosition (others : List ℤ) (index : ℕ) : Reply ℤ :=
  if index = 0 then (readAt others 0).bind fun first ↦ checkedI64 (first - 10)
  else if others.length ≤ index then (readAt others (others.length - 1)).bind fun last ↦ checkedI64 (last + 10)
  else
    (readAt others (index - 1)).bind fun before ↦ (readAt others index).bind fun after ↦
      (checkedI64 (after - before)).bind fun gap ↦
        if 1 < gap then checkedI64 (before + gap / 2) else checkedI64 (before + 1)

/-- The cards whose middle is at or above a line. -/
def cardsAbove (slot : List (TaskId × Area)) (y : ℕ) (moving : TaskId) : ℕ :=
  slot.countP fun card ↦ card.1 != moving && decide (card.2.y + card.2.height / 2 ≤ y)

/-- `drop_position`: where a card dropped at `y` lands in a column. -/
def dropPosition (idx y : ℕ) (moving : TaskId) : Reply (Option ℤ) :=
  let others := ((view.tasksIn idx).filter fun t ↦ t.id != moving).map fun t ↦ t.position
  if others = [] then .ok (some 0)
  else if idx < view.colOffset then .ok none
  else
    match view.taskAreas[idx - view.colOffset]? with
    | none => .ok none
    | some slot =>
      let index := cardsAbove slot y moving + (view.colScroll[idx]?).getD 0
      (slotPosition others (min index others.length)).bind fun position ↦ .ok (some position)

/-- `request_move`: the question of the task is asked first where the move finishes it and there is no default. -/
def requestMove (task : TaskId) (toColumn : ColumnId) (position : Option ℤ) : MoveStart :=
  let asked := (view.tasks.find? fun t ↦ t.id == task).bind fun t ↦
    if toColumn = view.board.finishedCol ∧ t.columnId ≠ view.board.finishedCol then
      t.program.bind StepRef.question
    else none
  match asked with
  | none => .send ⟨task, toColumn, position⟩ none
  | some question =>
    match question.default with
    | some answer => .send ⟨task, toColumn, position⟩ (some answer)
    | none => .ask ⟨task, toColumn, position⟩

end BoardView

/-! ### Codes, keys and drops -/

/-- The codes that move a task within its column. -/
inductive Within where
  | up
  | down
  | top
  | bottom
  deriving DecidableEq, Repr

/-- The arms of `apply_armed` for them. The board came with the task. -/
def armedWithin (view : Option BoardView) (board : Board) (task : Task) (command : Within) : Reply MoveRequest :=
  let refuse : Reply MoveRequest := .err (some (text "it is there already"))
  let elsewhere : Reply MoveRequest := .err (some (text "open that board to move a task within its column"))
  let colIdx := (board.columns.findIdx? fun c ↦ c.id == task.columnId).getD 0
  match view with
  | none => elsewhere
  | some view =>
    if view.board.id ≠ board.id then elsewhere
    else
      let siblings := view.tasksIn colIdx
      let idx := BoardView.placeOf siblings task.id
      let send (position : ℤ) : Reply MoveRequest := .ok ⟨task.id, task.columnId, some position⟩
      match command with
      | .up =>
        if 0 < idx then (readAt siblings (idx - 1)).bind fun t ↦ (checkedI64 (t.position - 1)).bind send
        else refuse
      | .down =>
        if idx + 1 < siblings.length then
          (readAt siblings (idx + 1)).bind fun t ↦ (checkedI64 (t.position + 1)).bind send
        else refuse
      | .top =>
        if 0 < idx then (readAt siblings 0).bind fun t ↦ (checkedI64 (t.position - 1)).bind send
        else refuse
      | .bottom =>
        if idx + 1 < siblings.length then
          (readAt siblings (siblings.length - 1)).bind fun t ↦ (checkedI64 (t.position + 1)).bind send
        else refuse

/-- The arrows. -/
inductive Arrow where
  | left
  | right
  | up
  | down
  deriving DecidableEq, Repr

/-- `move_picked`: an arrow moves the task that is picked up. -/
def movePicked (view : BoardView) (arrow : Arrow) : Reply MoveStart :=
  match view.picked with
  | none => .err (some (text "press Space to pick up the selected task first"))
  | some picked =>
    match view.tasks.find? fun t ↦ t.id == picked with
    | none => .err none
    | some task =>
      let currentCol := view.columnOf task
      let siblings := view.tasksIn currentCol
      let idx := BoardView.placeOf siblings picked
      let move (toColumn : ColumnId) (position : Option ℤ) : Reply MoveStart :=
        .ok (view.requestMove picked toColumn position)
      match arrow with
      | .left =>
        -- One left of the first column wraps to a number no column has.
        match if currentCol = 0 then none else view.columnId (currentCol - 1) with
        | some c => move c none
        | none => .err none
      | .right =>
        match view.columnId (currentCol + 1) with
        | some c => move c none
        | none => .err none
      | .up =>
        if 0 < idx then
          (readAt siblings (idx - 1)).bind fun t ↦ (checkedI64 (t.position - 1)).bind fun position ↦
            move task.columnId (some position)
        else .err none
      | .down =>
        if idx + 1 < siblings.length then
          (readAt siblings (idx + 1)).bind fun t ↦ (checkedI64 (t.position + 1)).bind fun position ↦
            move task.columnId (some position)
        else .err none

/-- The arm of `board_mouse` for letting go of a card. -/
def dropCard (view : BoardView) (task : TaskId) (source target y : ℕ) : Reply MoveStart :=
  (view.dropPosition target y task).bind fun position ↦
    if target = source ∧ position = none then .err none
    else
      match view.columnId target with
      | some column => .ok (view.requestMove task column position)
      | none => .err none

/-- The cards of a column as they are drawn: from the line `y` on, with a blank line under each, until the next one
would run off the column. -/
def drawCards (height : Task → ℕ) (bottom y : ℕ) : List Task → List (TaskId × Area)
  | [] => []
  | task :: rest =>
    if bottom < y + height task then []
    else (task.id, ⟨y, height task⟩) :: drawCards height bottom (y + height task + 1) rest

/-! ### What is asked for -/

inductive Reorder where
  | code (command : Within)
  /-- Up or down with the task picked up. -/
  | key (down : Bool)
  /-- A card from one column is let go over another, or the same, at a line. -/
  | drop (source target y : ℕ)
  deriving DecidableEq, Repr

namespace Reorder

variable (view : BoardView) (task : Task)

/-- What the client does. -/
def request : Reorder → Reply MoveRequest
  | code command => armedWithin (some view) view.board task command
  | key down =>
    (movePicked { view with picked := task.id } (if down then .down else .up)).bind fun start ↦ .ok start.request
  | drop source target y => (dropCard view task.id source target y).bind fun start ↦ .ok start.request

/-- The column the task goes to, from the left. -/
def column : Reorder → ℕ
  | code _ | key _ => view.columnOf task
  | drop _ target _ => target

/-- How many cards of a column are scrolled off above. -/
def scrolled (idx : ℕ) : ℕ := (view.colScroll[idx]?).getD 0

/-- How many of the other cards are above a line: those scrolled off and those with their middle above it. -/
def aboveLine (target y : ℕ) : ℕ :=
  ((view.tasksIn target).take (scrolled view target)).countP (fun t ↦ t.id != task.id) +
    BoardView.cardsAbove ((view.taskAreas[target - view.colOffset]?).getD []) y task.id

/-- The slot among the other tasks of the column that is asked for. There is none for a task that is at the end
already. -/
def slot (reorder : Reorder) : Option ℕ :=
  let siblings := view.tasksIn (reorder.column view task)
  let idx := BoardView.placeOf siblings task.id
  match reorder with
  | code .up | key false => if 0 < idx then some (idx - 1) else none
  | code .down | key true => if idx + 1 < siblings.length then some (idx + 1) else none
  | code .top => if 0 < idx then some 0 else none
  | code .bottom => if idx + 1 < siblings.length then some (siblings.length - 1) else none
  | drop _ target y => some (aboveLine view task target y)

/-- The task comes to stand in the slot asked for and the others stay in order, whenever the server makes the move. At
an end there is nothing to move. -/
def Lands (s : Store) (reorder : Reorder) : Prop :=
  match reorder.slot view task with
  | none => ∃ why, reorder.request view task = .err why
  | some slot => ∃ column position, view.columnId (reorder.column view task) = some column ∧
      reorder.request view task = .ok ⟨task.id, column, some position⟩ ∧
        ∀ outside (plan : MovePlan), plan.destination = column →
          ∃ moved s', applyMove outside task plan (some position) s = .ok (moved, s') ∧
            s'.columnOrder view.board.id column =
              ((s.columnOrder view.board.id column).erase task.id).insertIdx slot task.id

/-! ### Room -/

/-- A task goes above its neighbour: no task beyond is at the position before the neighbour's, or past it. -/
def RoomAbove (siblings : List Task) (idx : ℕ) (task : TaskId) : Prop :=
  ∀ neighbour, 0 < idx → siblings[idx - 1]? = some neighbour →
    InI64 (neighbour.position - 1) ∧
      ∀ beyond ∈ siblings.take (idx - 1), manualKey beyond.toTaskRow < toLex (neighbour.position - 1, task)

/-- A task goes below its neighbour. -/
def RoomBelow (siblings : List Task) (idx : ℕ) (task : TaskId) : Prop :=
  ∀ neighbour, siblings[idx + 1]? = some neighbour →
    InI64 (neighbour.position + 1) ∧
      ∀ beyond ∈ siblings.drop (idx + 2), toLex (neighbour.position + 1, task) < manualKey beyond.toTaskRow

/-- A task goes between two others, or outside of the first or the last. -/
structure SlotRoom (others : List Task) (slot : ℕ) (task : TaskId) : Prop where
  first : slot = 0 → ∀ first, others[0]? = some first → InI64 (first.position - 10)
  last : slot = others.length → ∀ last, others.getLast? = some last → InI64 (last.position + 10)
  between : ∀ before after, 0 < slot → others[slot - 1]? = some before → others[slot]? = some after →
    InI64 (after.position - before.position) ∧ (1 < after.position - before.position ∨
      after.position = before.position + 1 ∧ task < after.id)

/-- There is room where the task is put. A card that is dropped must not be scrolled off above, unless it is put at the
bottom. -/
def HasRoom (reorder : Reorder) : Prop :=
  let siblings := view.tasksIn (reorder.column view task)
  let idx := BoardView.placeOf siblings task.id
  match reorder with
  | code .up | key false => RoomAbove siblings idx task.id
  | code .down | key true => RoomBelow siblings idx task.id
  | code .top => ∀ first, 0 < idx → siblings[0]? = some first → InI64 (first.position - 1)
  | code .bottom => ∀ last, idx + 1 < siblings.length → siblings.getLast? = some last → InI64 (last.position + 1)
  | drop _ target y =>
    let others := siblings.filter fun t ↦ t.id != task.id
    others ≠ [] →
      (task.id ∈ (siblings.take (scrolled view target)).map (fun t ↦ t.id) →
        aboveLine view task target y = others.length) ∧
      SlotRoom others (aboveLine view task target y) task.id

end Reorder

/-- The view shows what is stored. -/
structure BoardView.Shows (view : BoardView) (s : Store) : Prop where
  board : s.board view.board.id = some view.board
  tasks : view.tasks = s.listTasks view.board.id
  /-- Positions are stored as `i64`. -/
  positions : ∀ task ∈ view.tasks, InI64 task.position
  /-- The primary key of the tasks. -/
  ids : Keyed TaskRow.id s.tasks

/-- The reordering is one of a manually ordered column: the task's own, or the one on screen it is dropped on. -/
structure Reorder.Applies (reorder : Reorder) (view : BoardView) (task : Task) (column : Column) : Prop where
  here : view.board.columns[reorder.column view task]? = some column
  manual : column.sortByDue = false
  own : ∀ source target y, reorder ≠ .drop source target y → column.id = task.columnId
  drawn : ∀ source target y, reorder = .drop source target y → view.colOffset ≤ target ∧
    ∃ (height : Task → ℕ) (bottom top : ℕ), view.taskAreas[target - view.colOffset]? =
      some (drawCards height bottom top ((view.tasksIn target).drop (Reorder.scrolled view target)))

/-! ### The tasks on screen -/

section Shown

variable {view : BoardView} {s : Store} {column : Column} {idx : ℕ} {task : Task}

theorem mem_listTasks {board : BoardId} (h : task ∈ s.listTasks board) :
    task.toTaskRow ∈ s.tasks ∧ task.boardId = board ∧ task.isArchived = false := by
  obtain ⟨row, hrow, rfl⟩ := List.mem_map.mp h
  obtain ⟨hmem, hshown⟩ := List.mem_filter.mp ((perm_sortByKey _ _).mem_iff.mp hrow)
  simp only [Bool.and_eq_true, beq_iff_eq, Bool.not_eq_true'] at hshown
  exact ⟨hmem, hshown.1, hshown.2⟩

/-- A column is shown in the order in which it is listed. -/
theorem tasksIn_keys (hshows : view.Shows s) (hhere : view.board.columns[idx]? = some column)
    (hmanual : column.sortByDue = false) :
    (view.tasksIn idx).map (fun t ↦ manualKey t.toTaskRow) = s.columnKeys view.board.id column.id := by
  have hlive : (view.tasks.filter fun t ↦ t.columnId == column.id && !t.isArchived) =
      (s.listTasks view.board.id).filter fun t ↦ t.columnId == column.id := by
    rw [hshows.tasks]
    refine List.filter_congr fun t ht ↦ ?_
    rw [(mem_listTasks ht).2.2]
    simp
  have hsorted : (view.tasksIn idx) = sortByKey (fun t ↦ manualKey t.toTaskRow)
      ((s.listTasks view.board.id).filter fun t ↦ t.columnId == column.id) := by
    simp [BoardView.tasksIn, hhere, hmanual, hlive]
  rw [hsorted, map_sortByKey, listed_keys_eq]
  exact (List.pairwise_insertionSort _ _).insertionSort_eq

theorem pairwise_tasksIn (hshows : view.Shows s) (hhere : view.board.columns[idx]? = some column)
    (hmanual : column.sortByDue = false) :
    (view.tasksIn idx).Pairwise fun a b ↦ manualKey a.toTaskRow < manualKey b.toTaskRow := by
  have hkeys : (s.columnKeys view.board.id column.id).Pairwise (· < ·) := pairwise_columnKeys hshows.ids
  rw [← tasksIn_keys hshows hhere hmanual] at hkeys
  exact List.pairwise_map.mp hkeys

theorem mem_tasksIn (hshows : view.Shows s) (hhere : view.board.columns[idx]? = some column)
    (hmanual : column.sortByDue = false) : task ∈ view.tasksIn idx ↔ task ∈ view.tasks ∧ task.columnId = column.id := by
  simp only [BoardView.tasksIn, hhere, hmanual, Bool.false_eq_true, if_false, (perm_sortByKey _ _).mem_iff,
    List.mem_filter, Bool.and_eq_true, beq_iff_eq, Bool.not_eq_true']
  constructor
  · rintro ⟨hmem, hcolumn, -⟩
    exact ⟨hmem, hcolumn⟩
  · rintro ⟨hmem, hcolumn⟩
    rw [hshows.tasks] at hmem
    exact ⟨hshows.tasks ▸ hmem, hcolumn, (mem_listTasks hmem).2.2⟩

/-- The keys of the others on screen are those of the others that are listed. -/
theorem map_others (hshows : view.Shows s) (hhere : view.board.columns[idx]? = some column)
    (hmanual : column.sortByDue = false) (id : TaskId) :
    ((view.tasksIn idx).filter fun t ↦ t.id != id).map (fun t ↦ manualKey t.toTaskRow) =
      s.otherKeys view.board.id column.id id := by
  rw [Store.otherKeys, ← tasksIn_keys hshows hhere hmanual, List.filter_map]
  rfl

/-- Of a task that asks for a slot: it lands exactly if the position sent for it fits there. -/
theorem lands_iff_fits {reorder : Reorder} {slot : ℕ} (hshows : view.Shows s)
    (happlies : reorder.Applies view task column) (htask : task ∈ view.tasks)
    (hslot : reorder.slot view task = some slot)
    (hle : slot ≤ ((view.tasksIn (reorder.column view task)).filter fun t ↦ t.id != task.id).length) :
    reorder.Lands view task s ↔ ∃ position, reorder.request view task = .ok ⟨task.id, column.id, some position⟩ ∧
      Fits (((view.tasksIn (reorder.column view task)).filter fun t ↦ t.id != task.id).map
        fun t ↦ manualKey t.toTaskRow) slot (toLex (position, task.id)) := by
  have hothers := map_others hshows happlies.here happlies.manual task.id
  have hcolumnId : view.columnId (reorder.column view task) = some column.id := by
    simp [BoardView.columnId, happlies.here]
  obtain ⟨hrow, hboard, hlive⟩ := mem_listTasks (hshows.tasks ▸ htask)
  have hfound : s.taskRow task.id = some task.toTaskRow := hshows.ids.find?_eq_some_iff.mpr ⟨hrow, rfl⟩
  have hthere : s.hasColumn column.id = true := by
    have hmem := List.mem_of_find?_eq_some hshows.board
    refine List.find?_isSome.mpr ⟨view.board, hmem, List.find?_isSome.mpr ⟨column, ?_, by simp⟩⟩
    exact List.mem_of_getElem? happlies.here
  have hcount : slot ≤ (s.otherKeys view.board.id column.id task.id).length := by
    rwa [← hothers, List.length_map]
  rw [hothers]
  simp only [Reorder.Lands, hslot, hcolumnId]
  constructor
  · rintro ⟨_, position, hsome, hrequest, hmoves⟩
    cases hsome
    refine ⟨position, hrequest, ?_⟩
    have hmoved := hmoves (.still 0) ⟨column.id, column.id, none, []⟩ rfl
    exact (applyMove_lands_iff hshows.ids hthere hfound hlive hboard hcount).mp hmoved
  · rintro ⟨position, hrequest, hfits⟩
    refine ⟨column.id, position, rfl, hrequest, fun outside plan hplan ↦ ?_⟩
    rw [← hplan] at hthere hcount hfits ⊢
    exact (applyMove_lands_iff hshows.ids hthere hfound hlive hboard hcount).mpr hfits

end Shown

/-! ### Up, down, to the top and to the bottom -/

section Within

variable {siblings above below : List Task} {task neighbour : Task}

theorem placeOf_eq (habove : ∀ t ∈ above, t.id ≠ task.id) :
    BoardView.placeOf (above ++ task :: below) task.id = above.length := by
  have hnone : above.findIdx? (fun t ↦ t.id == task.id) = none := by
    simpa [List.findIdx?_eq_none_iff] using habove
  rw [BoardView.placeOf, List.findIdx?_append, hnone]
  simp [List.findIdx?_cons]

/-- A task among others with one key each stands between those above and those below it. -/
theorem exists_split (hsorted : siblings.Pairwise fun a b ↦ manualKey a.toTaskRow < manualKey b.toTaskRow)
    (hids : (siblings.map fun t ↦ t.id).Nodup) (htask : task ∈ siblings) :
    ∃ above below, siblings = above ++ task :: below ∧ BoardView.placeOf siblings task.id = above.length ∧
      (siblings.filter fun t ↦ t.id != task.id) = above ++ below := by
  obtain ⟨above, below, rfl⟩ := List.append_of_mem htask
  rw [List.map_append, List.map_cons] at hids
  have hapart : ∀ t, t ∈ above ∨ t ∈ below → t.id ≠ task.id := by
    intro t ht heq
    obtain ⟨hmiddle, -⟩ := List.nodup_cons.mp (List.perm_middle.nodup_iff.mp hids)
    apply hmiddle
    rw [← heq, ← List.map_append]
    exact List.mem_map_of_mem (List.mem_append.mpr ht)
  refine ⟨above, below, rfl, placeOf_eq fun t ht ↦ hapart t (.inl ht), ?_⟩
  rw [List.filter_append, List.filter_cons_of_neg (by simp)]
  congr 1
  · exact List.filter_eq_self.mpr fun t ht ↦ by simpa using hapart t (.inl ht)
  · exact List.filter_eq_self.mpr fun t ht ↦ by simpa using hapart t (.inr ht)

theorem readAt_eq_ok {α : Type} {v : List α} {i : ℕ} {a : α} : readAt v i = .ok a ↔ v[i]? = some a := by
  unfold readAt
  split <;> simp_all

theorem checkedI64_eq_ok {n m : ℤ} : checkedI64 n = .ok m ↔ InI64 n ∧ n = m := by
  unfold checkedI64
  split_ifs with h <;> simp [h]

@[simp] theorem request_requestMove (view : BoardView) (id : TaskId) (column : ColumnId) (position : Option ℤ) :
    (view.requestMove id column position).request = ⟨id, column, position⟩ := by
  unfold BoardView.requestMove
  dsimp only
  split
  · rfl
  · split <;> rfl

/-- The position next to a task's is sent for another. -/
def beside (siblings : List Task) (i : ℕ) (f : ℤ → ℤ) (task : TaskId) (column : ColumnId) : Reply MoveRequest :=
  (readAt siblings i).bind fun t ↦ (checkedI64 (f t.position)).bind fun p ↦ .ok ⟨task, column, some p⟩

theorem beside_eq_ok {i : ℕ} {f : ℤ → ℤ} {id : TaskId} {column : ColumnId} {position : ℤ} :
    beside siblings i f id column = .ok ⟨id, column, some position⟩ ↔
      ∃ t, siblings[i]? = some t ∧ InI64 (f t.position) ∧ f t.position = position := by
  simp [beside, Outcome.bind_eq_ok, readAt_eq_ok, checkedI64_eq_ok]

/-- Above its neighbour a task fits exactly if there is room. -/
theorem above_fits_iff
    (hsorted : (above ++ neighbour :: task :: below).Pairwise fun a b ↦ manualKey a.toTaskRow < manualKey b.toTaskRow) :
    Fits ((above ++ neighbour :: below).map fun t ↦ manualKey t.toTaskRow) above.length
        (toLex (neighbour.position - 1, task.id)) ↔
      ∀ beyond ∈ above, manualKey beyond.toTaskRow < toLex (neighbour.position - 1, task.id) := by
  have hkey : (toLex (neighbour.position - 1, task.id) : ℤ ×ₗ TaskId) < manualKey neighbour.toTaskRow :=
    Prod.Lex.toLex_lt_toLex.mpr (.inl (sub_one_lt _))
  have hbelow : ∀ b ∈ below, manualKey neighbour.toTaskRow < manualKey b.toTaskRow := by
    obtain ⟨-, hrest, -⟩ := List.pairwise_append.mp hsorted
    exact fun b hb ↦ (List.pairwise_cons.mp hrest).1 b (List.mem_cons_of_mem _ hb)
  rw [List.map_append, ← List.length_map (fun t : Task ↦ manualKey t.toTaskRow), fits_append]
  simp only [List.forall_mem_map, List.forall_mem_cons]
  exact and_iff_left ⟨hkey, fun b hb ↦ hkey.trans (hbelow b hb)⟩

/-- Below its neighbour a task fits exactly if there is room. -/
theorem below_fits_iff
    (hsorted : (above ++ task :: neighbour :: below).Pairwise fun a b ↦ manualKey a.toTaskRow < manualKey b.toTaskRow) :
    Fits ((above ++ neighbour :: below).map fun t ↦ manualKey t.toTaskRow) (above.length + 1)
        (toLex (neighbour.position + 1, task.id)) ↔
      ∀ beyond ∈ below, toLex (neighbour.position + 1, task.id) < manualKey beyond.toTaskRow := by
  have hkey : manualKey neighbour.toTaskRow < (toLex (neighbour.position + 1, task.id) : ℤ ×ₗ TaskId) :=
    Prod.Lex.toLex_lt_toLex.mpr (.inl (lt_add_one _))
  have habove : ∀ a ∈ above, manualKey a.toTaskRow < manualKey neighbour.toTaskRow := by
    obtain ⟨-, -, hacross⟩ := List.pairwise_append.mp hsorted
    exact fun a ha ↦ hacross a ha neighbour (List.mem_cons_of_mem _ List.mem_cons_self)
  have hlength : above.length + 1 = ((above ++ [neighbour]).map fun t ↦ manualKey t.toTaskRow).length := by simp
  rw [List.append_cons, List.map_append, hlength, fits_append]
  simp only [List.forall_mem_map, List.forall_mem_append, List.forall_mem_singleton]
  exact and_iff_right ⟨fun a ha ↦ (habove a ha).trans hkey, hkey⟩

/-- Above the first one a task fits. -/
theorem top_fits (hsorted : (neighbour :: above).Pairwise fun a b ↦ manualKey a.toTaskRow < manualKey b.toTaskRow) :
    Fits ((neighbour :: above).map fun t ↦ manualKey t.toTaskRow) 0 (toLex (neighbour.position - 1, task.id)) := by
  have hkey : (toLex (neighbour.position - 1, task.id) : ℤ ×ₗ TaskId) < manualKey neighbour.toTaskRow :=
    Prod.Lex.toLex_lt_toLex.mpr (.inl (sub_one_lt _))
  refine ⟨by simp, ?_⟩
  simp only [List.drop_zero, List.forall_mem_map, List.forall_mem_cons]
  exact ⟨hkey, fun t ht ↦ hkey.trans ((List.pairwise_cons.mp hsorted).1 t ht)⟩

/-- Below the last one a task fits. -/
theorem bottom_fits
    (hsorted : (below ++ [neighbour]).Pairwise fun a b ↦ manualKey a.toTaskRow < manualKey b.toTaskRow) :
    Fits ((below ++ [neighbour]).map fun t ↦ manualKey t.toTaskRow) (below ++ [neighbour]).length
      (toLex (neighbour.position + 1, task.id)) := by
  have hkey : manualKey neighbour.toTaskRow < (toLex (neighbour.position + 1, task.id) : ℤ ×ₗ TaskId) :=
    Prod.Lex.toLex_lt_toLex.mpr (.inl (lt_add_one _))
  obtain ⟨-, -, hacross⟩ := List.pairwise_append.mp hsorted
  rw [← List.length_map (fun t : Task ↦ manualKey t.toTaskRow)]
  refine ⟨?_, by rw [List.drop_length]; exact fun _ h ↦ absurd h List.not_mem_nil⟩
  rw [List.take_length]
  simp only [List.forall_mem_map, List.forall_mem_append, List.forall_mem_singleton]
  exact ⟨fun t ht ↦ (hacross t ht neighbour (List.mem_singleton.mpr rfl)).trans hkey, hkey⟩

end Within

section Moves

variable {view : BoardView} {s : Store} {column : Column} {task : Task} {reorder : Reorder}

/-- A task that is sent next to another lands exactly if that position is a number of the machine and it fits. -/
theorem lands_beside_iff {slot i : ℕ} {f : ℤ → ℤ} {t : Task} (hshows : view.Shows s)
    (happlies : reorder.Applies view task column) (htask : task ∈ view.tasks)
    (hslot : reorder.slot view task = some slot)
    (hle : slot ≤ ((view.tasksIn (reorder.column view task)).filter fun t ↦ t.id != task.id).length)
    (hi : (view.tasksIn (reorder.column view task))[i]? = some t)
    (hrequest : reorder.request view task =
      beside (view.tasksIn (reorder.column view task)) i f task.id column.id) :
    reorder.Lands view task s ↔ InI64 (f t.position) ∧
      Fits (((view.tasksIn (reorder.column view task)).filter fun t ↦ t.id != task.id).map
        fun t ↦ manualKey t.toTaskRow) slot (toLex (f t.position, task.id)) := by
  rw [lands_iff_fits hshows happlies htask hslot hle, hrequest]
  simp only [beside_eq_ok, hi]
  constructor
  · rintro ⟨_, ⟨_, hsame, hnumber, rfl⟩, hfits⟩
    cases hsame
    exact ⟨hnumber, hfits⟩
  · rintro ⟨hnumber, hfits⟩
    exact ⟨_, ⟨t, rfl, hnumber, rfl⟩, hfits⟩

theorem keyed_tasks (hshows : view.Shows s) : Keyed (fun t : Task ↦ t.id) view.tasks := by
  have hlisted : (view.tasks.map fun t ↦ t.id).Perm
      ((s.tasks.filter fun row ↦ row.boardId == view.board.id && !row.isArchived).map TaskRow.id) := by
    rw [hshows.tasks, Store.listTasks, List.map_map]
    exact (perm_sortByKey _ _).map _
  exact hlisted.nodup_iff.mpr (List.Nodup.sublist (List.filter_sublist.map _) hshows.ids)

theorem request_requestMove_beside (view : BoardView) (siblings : List Task) (i : ℕ) (f : ℤ → ℤ) (id : TaskId)
    (column : ColumnId) :
    ((readAt siblings i).bind fun t ↦ (checkedI64 (f t.position)).bind fun position ↦
        (.ok (view.requestMove id column (some position)) : Reply MoveStart)).bind
      (fun start ↦ (.ok start.request : Reply MoveRequest)) = beside siblings i f id column := by
  unfold beside
  cases readAt siblings i with
  | ok t => cases h : checkedI64 (f t.position) <;> simp [h]
  | err _ | panicked => rfl

/-- An arrow up and the code for it ask for the same. -/
theorem request_up (hshows : view.Shows s) (htask : task ∈ view.tasks) (hup : reorder = .code .up ∨ reorder = .key false) :
    ∃ why, reorder.request view task =
      if 0 < BoardView.placeOf (view.tasksIn (view.columnOf task)) task.id then
        beside (view.tasksIn (view.columnOf task)) (BoardView.placeOf (view.tasksIn (view.columnOf task)) task.id - 1)
          (· - 1) task.id task.columnId
      else .err why := by
  rcases hup with rfl | rfl
  · refine ⟨some (text "it is there already"), ?_⟩
    simp only [Reorder.request, armedWithin, ne_eq, not_true_eq_false, if_false]
    rfl
  · have hfound : view.tasks.find? (fun t ↦ t.id == task.id) = some task :=
      (keyed_tasks hshows).find?_eq_some_iff.mpr ⟨htask, rfl⟩
    refine ⟨none, ?_⟩
    rw [← request_requestMove_beside { view with picked := task.id }]
    simp only [Reorder.request, movePicked, hfound, Bool.false_eq_true, if_false]
    exact apply_ite (fun start : Reply MoveStart ↦ start.bind fun start ↦ .ok start.request) _ _ _

/-- An arrow down and the code for it ask for the same. -/
theorem request_down (hshows : view.Shows s) (htask : task ∈ view.tasks)
    (hdown : reorder = .code .down ∨ reorder = .key true) :
    ∃ why, reorder.request view task =
      if BoardView.placeOf (view.tasksIn (view.columnOf task)) task.id + 1 <
          (view.tasksIn (view.columnOf task)).length then
        beside (view.tasksIn (view.columnOf task)) (BoardView.placeOf (view.tasksIn (view.columnOf task)) task.id + 1)
          (· + 1) task.id task.columnId
      else .err why := by
  rcases hdown with rfl | rfl
  · refine ⟨some (text "it is there already"), ?_⟩
    simp only [Reorder.request, armedWithin, ne_eq, not_true_eq_false, if_false]
    rfl
  · have hfound : view.tasks.find? (fun t ↦ t.id == task.id) = some task :=
      (keyed_tasks hshows).find?_eq_some_iff.mpr ⟨htask, rfl⟩
    refine ⟨none, ?_⟩
    rw [← request_requestMove_beside { view with picked := task.id }]
    simp only [Reorder.request, movePicked, hfound, if_true]
    exact apply_ite (fun start : Reply MoveStart ↦ start.bind fun start ↦ .ok start.request) _ _ _

/-- What a task finds in its own column. -/
theorem exists_split_own (hshows : view.Shows s) (happlies : reorder.Applies view task column)
    (htask : task ∈ view.tasks) (hcolumn : reorder.column view task = view.columnOf task)
    (hown : column.id = task.columnId) :
    ∃ above below, view.tasksIn (view.columnOf task) = above ++ task :: below ∧
      BoardView.placeOf (view.tasksIn (view.columnOf task)) task.id = above.length ∧
      ((view.tasksIn (view.columnOf task)).filter fun t ↦ t.id != task.id) = above ++ below ∧
      (above ++ task :: below).Pairwise fun a b ↦ manualKey a.toTaskRow < manualKey b.toTaskRow := by
  have hhere := happlies.here
  rw [hcolumn] at hhere
  have hsorted := pairwise_tasksIn hshows hhere happlies.manual
  have hids : ((view.tasksIn (view.columnOf task)).map fun t ↦ t.id).Nodup := by
    have hkeys : ((view.tasksIn (view.columnOf task)).map fun t ↦ t.id) =
        s.columnOrder view.board.id column.id := by
      rw [columnOrder_eq, ← tasksIn_keys hshows hhere happlies.manual, List.map_map]
      rfl
    rw [hkeys]
    exact nodup_columnOrder hshows.ids
  have hmem : task ∈ view.tasksIn (view.columnOf task) :=
    (mem_tasksIn hshows hhere happlies.manual).mpr ⟨htask, hown.symm⟩
  obtain ⟨above, below, hsplit, hplace, hothers⟩ := exists_split hsorted hids hmem
  exact ⟨above, below, hsplit, hplace, hothers, hsplit ▸ hsorted⟩

theorem lands_of_refused {why : Option Text} (hslot : reorder.slot view task = none)
    (hrequest : reorder.request view task = .err why) : reorder.Lands view task s := by
  simp only [Reorder.Lands, hslot]
  exact ⟨why, hrequest⟩

theorem lands_up_iff (hshows : view.Shows s) (happlies : reorder.Applies view task column)
    (htask : task ∈ view.tasks) (hup : reorder = .code .up ∨ reorder = .key false) :
    reorder.Lands view task s ↔ Reorder.RoomAbove (view.tasksIn (view.columnOf task))
      (BoardView.placeOf (view.tasksIn (view.columnOf task)) task.id) task.id := by
  have hcolumn : reorder.column view task = view.columnOf task := by rcases hup with rfl | rfl <;> rfl
  have hown : column.id = task.columnId := happlies.own 0 0 0 (by rcases hup with rfl | rfl <;> simp)
  have hslot : reorder.slot view task =
      if 0 < BoardView.placeOf (view.tasksIn (view.columnOf task)) task.id then
        some (BoardView.placeOf (view.tasksIn (view.columnOf task)) task.id - 1) else none := by
    rcases hup with rfl | rfl <;> rfl
  obtain ⟨why, hrequest⟩ := request_up hshows htask hup
  obtain ⟨above, below, hsplit, hplace, hothers, hsorted⟩ := exists_split_own hshows happlies htask hcolumn hown
  rcases above.eq_nil_or_concat with rfl | ⟨beyond, neighbour, rfl⟩
  · rw [hplace] at hslot hrequest ⊢
    refine iff_of_true (lands_of_refused hslot hrequest) ?_
    exact fun neighbour h ↦ absurd h (lt_irrefl 0)
  · rw [List.concat_eq_append, List.append_assoc, List.singleton_append] at hsplit hothers hsorted
    rw [List.length_concat] at hplace
    rw [hplace, if_pos (Nat.succ_pos _), Nat.add_sub_cancel] at hslot hrequest
    have hi : (view.tasksIn (view.columnOf task))[beyond.length]? = some neighbour := by simp [hsplit]
    rw [← hcolumn] at hi hothers hrequest
    rw [← hown] at hrequest
    rw [lands_beside_iff hshows happlies htask hslot (by simp [hothers]) hi hrequest, hothers,
      above_fits_iff hsorted]
    rw [hcolumn] at hi
    unfold Reorder.RoomAbove
    rw [hplace, Nat.add_sub_cancel, hi]
    have hbeyond : (view.tasksIn (view.columnOf task)).take beyond.length = beyond := by simp [hsplit]
    rw [hbeyond]
    simp

theorem lands_down_iff (hshows : view.Shows s) (happlies : reorder.Applies view task column)
    (htask : task ∈ view.tasks) (hdown : reorder = .code .down ∨ reorder = .key true) :
    reorder.Lands view task s ↔ Reorder.RoomBelow (view.tasksIn (view.columnOf task))
      (BoardView.placeOf (view.tasksIn (view.columnOf task)) task.id) task.id := by
  have hcolumn : reorder.column view task = view.columnOf task := by rcases hdown with rfl | rfl <;> rfl
  have hown : column.id = task.columnId := happlies.own 0 0 0 (by rcases hdown with rfl | rfl <;> simp)
  have hslot : reorder.slot view task =
      if BoardView.placeOf (view.tasksIn (view.columnOf task)) task.id + 1 <
          (view.tasksIn (view.columnOf task)).length then
        some (BoardView.placeOf (view.tasksIn (view.columnOf task)) task.id + 1) else none := by
    rcases hdown with rfl | rfl <;> rfl
  obtain ⟨why, hrequest⟩ := request_down hshows htask hdown
  obtain ⟨above, below, hsplit, hplace, hothers, hsorted⟩ := exists_split_own hshows happlies htask hcolumn hown
  rw [hplace] at hslot hrequest ⊢
  cases below with
  | nil =>
    have hlength : ¬ above.length + 1 < (view.tasksIn (view.columnOf task)).length := by simp [hsplit]
    rw [if_neg hlength] at hslot hrequest
    refine iff_of_true (lands_of_refused hslot hrequest) fun neighbour h ↦ ?_
    simp [hsplit] at h
  | cons neighbour beyond =>
    have hlength : above.length + 1 < (view.tasksIn (view.columnOf task)).length := by simp [hsplit]
    rw [if_pos hlength] at hslot hrequest
    have hi : (view.tasksIn (view.columnOf task))[above.length + 1]? = some neighbour := by simp [hsplit]
    rw [← hcolumn] at hi hothers hrequest
    rw [← hown] at hrequest
    rw [lands_beside_iff hshows happlies htask hslot (by simp [hothers]) hi hrequest, hothers,
      below_fits_iff hsorted]
    rw [hcolumn] at hi
    unfold Reorder.RoomBelow
    rw [hi]
    have hbeyond : (view.tasksIn (view.columnOf task)).drop (above.length + 2) = beyond := by simp [hsplit]
    rw [hbeyond]
    simp

theorem lands_top_iff (hshows : view.Shows s) (happlies : (Reorder.code .top).Applies view task column)
    (htask : task ∈ view.tasks) :
    (Reorder.code .top).Lands view task s ↔
      ∀ first, 0 < BoardView.placeOf (view.tasksIn (view.columnOf task)) task.id →
        (view.tasksIn (view.columnOf task))[0]? = some first → InI64 (first.position - 1) := by
  have hown : column.id = task.columnId := happlies.own 0 0 0 nofun
  have hslot : (Reorder.code .top).slot view task =
      if 0 < BoardView.placeOf (view.tasksIn (view.columnOf task)) task.id then some 0 else none := rfl
  have hrequest : (Reorder.code .top).request view task =
      if 0 < BoardView.placeOf (view.tasksIn (view.columnOf task)) task.id then
        beside (view.tasksIn (view.columnOf task)) 0 (· - 1) task.id task.columnId
      else .err (some (text "it is there already")) := by
    simp only [Reorder.request, armedWithin, ne_eq, not_true_eq_false, if_false]
    rfl
  obtain ⟨above, below, hsplit, hplace, hothers, hsorted⟩ := exists_split_own hshows happlies htask rfl hown
  rw [hplace] at hslot hrequest ⊢
  cases above with
  | nil => exact iff_of_true (lands_of_refused hslot hrequest) fun first h ↦ absurd h (lt_irrefl 0)
  | cons first rest =>
    rw [if_pos (by simp)] at hslot hrequest
    have hi : (view.tasksIn (view.columnOf task))[0]? = some first := by simp [hsplit]
    rw [← hown] at hrequest
    have hfits : Fits (((view.tasksIn (view.columnOf task)).filter fun t ↦ t.id != task.id).map
        fun t ↦ manualKey t.toTaskRow) 0 (toLex (first.position - 1, task.id)) := by
      rw [hothers]
      exact top_fits (hsorted.sublist ((List.sublist_cons_self task below).append_left (first :: rest)))
    rw [lands_beside_iff hshows happlies htask hslot (Nat.zero_le _) hi hrequest, hi]
    refine (and_iff_left hfits).trans ?_
    simp

theorem lands_bottom_iff (hshows : view.Shows s) (happlies : (Reorder.code .bottom).Applies view task column)
    (htask : task ∈ view.tasks) :
    (Reorder.code .bottom).Lands view task s ↔
      ∀ last, BoardView.placeOf (view.tasksIn (view.columnOf task)) task.id + 1 <
          (view.tasksIn (view.columnOf task)).length →
        (view.tasksIn (view.columnOf task)).getLast? = some last → InI64 (last.position + 1) := by
  have hown : column.id = task.columnId := happlies.own 0 0 0 nofun
  have hslot : (Reorder.code .bottom).slot view task =
      if BoardView.placeOf (view.tasksIn (view.columnOf task)) task.id + 1 <
          (view.tasksIn (view.columnOf task)).length then
        some ((view.tasksIn (view.columnOf task)).length - 1) else none := rfl
  have hrequest : (Reorder.code .bottom).request view task =
      if BoardView.placeOf (view.tasksIn (view.columnOf task)) task.id + 1 <
          (view.tasksIn (view.columnOf task)).length then
        beside (view.tasksIn (view.columnOf task)) ((view.tasksIn (view.columnOf task)).length - 1) (· + 1) task.id
          task.columnId
      else .err (some (text "it is there already")) := by
    simp only [Reorder.request, armedWithin, ne_eq, not_true_eq_false, if_false]
    rfl
  obtain ⟨above, below, hsplit, hplace, hothers, hsorted⟩ := exists_split_own hshows happlies htask rfl hown
  rw [hplace] at hslot hrequest ⊢
  rcases below.eq_nil_or_concat with rfl | ⟨rest, last, rfl⟩
  · have hlength : ¬ above.length + 1 < (view.tasksIn (view.columnOf task)).length := by simp [hsplit]
    rw [if_neg hlength] at hslot hrequest
    exact iff_of_true (lands_of_refused hslot hrequest) fun last h ↦ absurd h hlength
  · rw [List.concat_eq_append] at hsplit hothers hsorted
    have hlength : above.length + 1 < (view.tasksIn (view.columnOf task)).length := by simp [hsplit]
    rw [if_pos hlength] at hslot hrequest
    have hlast : (view.tasksIn (view.columnOf task)).getLast? = some last := by
      rw [hsplit, ← List.cons_append, ← List.append_assoc]
      exact List.getLast?_concat
    have hi : (view.tasksIn (view.columnOf task))[(view.tasksIn (view.columnOf task)).length - 1]? = some last := by
      rw [← List.getLast?_eq_getElem?]
      exact hlast
    rw [← hown] at hrequest
    have hend : (view.tasksIn (view.columnOf task)).length - 1 = (above ++ rest ++ [last]).length := by
      simp only [hsplit, List.length_append, List.length_cons]
      omega
    have hfits : Fits (((view.tasksIn (view.columnOf task)).filter fun t ↦ t.id != task.id).map
        fun t ↦ manualKey t.toTaskRow) ((view.tasksIn (view.columnOf task)).length - 1)
        (toLex (last.position + 1, task.id)) := by
      rw [hothers, hend, ← List.append_assoc]
      refine bottom_fits ?_
      rw [List.append_assoc]
      exact hsorted.sublist (List.Sublist.append_left (List.sublist_cons_self task _) _)
    have hle : (view.tasksIn (view.columnOf task)).length - 1 ≤
        ((view.tasksIn (view.columnOf task)).filter fun t ↦ t.id != task.id).length := by
      rw [hend, hothers, List.append_assoc]
    rw [lands_beside_iff hshows happlies htask hslot hle hi hrequest, hlast]
    refine (and_iff_left hfits).trans ?_
    simp [hlength]

end Moves

/-! ### Drops -/

section Drops

variable {rows others : List Task} {task : TaskId} {slot y : ℕ}

theorem cardsAbove_le (height : Task → ℕ) (bottom top : ℕ) :
    BoardView.cardsAbove (drawCards height bottom top rows) y task ≤ rows.countP fun t ↦ t.id != task := by
  induction rows generalizing top with
  | nil => simp [drawCards, BoardView.cardsAbove]
  | cons row rest ih =>
    unfold drawCards
    split_ifs
    · simp [BoardView.cardsAbove]
    · have hrest := ih (top + height row + 1)
      simp only [BoardView.cardsAbove, List.countP_cons] at hrest ⊢
      by_cases hrow : row.id = task
      · simpa [hrow] using hrest
      · have hcounted : (row.id != task) = true := by simpa using hrow
        rw [hcounted, Bool.true_and, if_pos rfl]
        split_ifs <;> omega

/-- Of tasks with ids apart all but one have another id than a task among them. -/
theorem countP_others (task : TaskId) (hids : (rows.map fun t ↦ t.id).Nodup) :
    rows.countP (fun t ↦ t.id != task) + (if task ∈ rows.map fun t ↦ t.id then 1 else 0) = rows.length := by
  have hself : rows.countP (fun t ↦ ¬ (t.id != task)) = if task ∈ rows.map (fun t ↦ t.id) then 1 else 0 := by
    have hcount : rows.countP (fun t ↦ ¬ (t.id != task)) = (rows.map fun t ↦ t.id).count task := by
      rw [List.count, List.countP_map]
      exact List.countP_congr fun t _ ↦ by simp
    rw [hcount]
    split_ifs with hmem
    · exact List.count_eq_one_of_mem hids hmem
    · exact List.count_eq_zero_of_not_mem hmem
  rw [← hself]
  exact (List.length_eq_countP_add_countP _).symm

/-- The index that is worked out for a drop is the slot asked for, unless the card is scrolled off above. -/
theorem index_eq (task : TaskId) (hids : (rows.map fun t ↦ t.id).Nodup) (scroll shown : ℕ)
    (hshown : shown ≤ (rows.drop scroll).countP fun t ↦ t.id != task) :
    (rows.take scroll).countP (fun t ↦ t.id != task) + shown ≤ (rows.filter fun t ↦ t.id != task).length ∧
      min (shown + scroll) (rows.filter fun t ↦ t.id != task).length =
        if task ∈ (rows.take scroll).map (fun t ↦ t.id) then
          min ((rows.take scroll).countP (fun t ↦ t.id != task) + shown + 1)
            (rows.filter fun t ↦ t.id != task).length
        else (rows.take scroll).countP (fun t ↦ t.id != task) + shown := by
  have hcount : (rows.filter fun t ↦ t.id != task).length =
      (rows.take scroll).countP (fun t ↦ t.id != task) + (rows.drop scroll).countP fun t ↦ t.id != task := by
    rw [← List.countP_append, List.take_append_drop, List.countP_eq_length_filter]
  have htake : ((rows.take scroll).map fun t ↦ t.id).Nodup := hids.sublist ((List.take_sublist _ _).map _)
  have hhidden := countP_others task htake
  rw [List.length_take] at hhidden
  have hpast : rows.length < scroll → (rows.drop scroll).countP (fun t ↦ t.id != task) = 0 := by
    intro hlong
    rw [List.drop_eq_nil_of_le hlong.le]
    rfl
  refine ⟨by omega, ?_⟩
  by_cases hlong : rows.length < scroll
  · have hnone := hpast hlong
    split_ifs at hhidden ⊢ <;> omega
  · split_ifs at hhidden ⊢ <;> omega

theorem readAt_positions {i : ℕ} {f : ℤ → Reply ℤ} {position : ℤ} :
    (readAt (others.map fun t ↦ t.position) i).bind f = .ok position ↔
      ∃ t, others[i]? = some t ∧ f t.position = .ok position := by
  simp [Outcome.bind_eq_ok, readAt_eq_ok]

/-- Between two tasks there is a position exactly if there is room. -/
theorem between_iff (task : TaskId) {before after : Task} (hbefore : InI64 before.position) (hafter : InI64 after.position)
    (hless : manualKey before.toTaskRow < manualKey after.toTaskRow) :
    (∃ position, ((checkedI64 (after.position - before.position)).bind fun gap ↦
        if 1 < gap then checkedI64 (before.position + gap / 2) else checkedI64 (before.position + 1)) = .ok position ∧
        manualKey before.toTaskRow < toLex (position, task) ∧ toLex (position, task) < manualKey after.toTaskRow) ↔
      InI64 (after.position - before.position) ∧ (1 < after.position - before.position ∨
        after.position = before.position + 1 ∧ task < after.id) := by
  have hle : before.position ≤ after.position := by
    rcases Prod.Lex.toLex_lt_toLex.mp hless with hlt | ⟨heq, -⟩
    · exact hlt.le
    · exact heq.le
  have hfits (position : ℤ) : (manualKey before.toTaskRow < toLex (position, task) ∧
      toLex (position, task) < manualKey after.toTaskRow) ↔
        (before.position < position ∨ before.position = position ∧ before.id < task) ∧
          (position < after.position ∨ position = after.position ∧ task < after.id) :=
    and_congr Prod.Lex.toLex_lt_toLex Prod.Lex.toLex_lt_toLex
  simp only [hfits, Outcome.bind_eq_ok, checkedI64_eq_ok]
  constructor
  · rintro ⟨position, ⟨gap, ⟨hgap, rfl⟩, hposition⟩, habove, hbelow⟩
    refine ⟨hgap, ?_⟩
    split_ifs at hposition with hwide
    · exact .inl hwide
    · obtain ⟨-, rfl⟩ := checkedI64_eq_ok.mp hposition
      rcases hbelow with hbelow | ⟨heq, htask⟩
      · omega
      · exact .inr ⟨heq.symm, htask⟩
  · rintro ⟨hgap, hwide | ⟨heq, htask⟩⟩
    · refine ⟨before.position + (after.position - before.position) / 2, ⟨_, ⟨hgap, rfl⟩, ?_⟩, .inl (by omega),
        .inl (by omega)⟩
      rw [if_pos hwide, checkedI64_eq_ok]
      refine ⟨?_, rfl⟩
      unfold InI64 at hbefore hafter ⊢
      omega
    · refine ⟨before.position + 1, ⟨_, ⟨hgap, rfl⟩, ?_⟩, .inl (by omega), .inr ⟨heq.symm, htask⟩⟩
      rw [if_neg (by omega), checkedI64_eq_ok]
      exact ⟨heq ▸ hafter, rfl⟩

/-- The position of a slot fits there exactly if there is room. -/
theorem slotPosition_fits_iff (hsorted : others.Pairwise fun a b ↦ manualKey a.toTaskRow < manualKey b.toTaskRow)
    (hnumbers : ∀ t ∈ others, InI64 t.position) (hsome : others ≠ []) (hslot : slot ≤ others.length) :
    (∃ position, BoardView.slotPosition (others.map fun t ↦ t.position) slot = .ok position ∧
        Fits (others.map fun t ↦ manualKey t.toTaskRow) slot (toLex (position, task))) ↔
      Reorder.SlotRoom others slot task := by
  have hkeys : (others.map fun t ↦ manualKey t.toTaskRow).Pairwise (· < ·) := List.pairwise_map.mpr hsorted
  have hneighbours (position : ℤ) : Fits (others.map fun t ↦ manualKey t.toTaskRow) slot (toLex (position, task)) ↔ _ :=
    fits_iff_neighbours hkeys (by simpa using hslot)
  have hlength : 0 < others.length := List.length_pos_iff.mpr hsome
  simp only [hneighbours, List.getElem?_map, Option.map_eq_some_iff]
  unfold BoardView.slotPosition
  rw [List.length_map]
  split_ifs with hfirst hlast
  · subst hfirst
    obtain ⟨first, hget⟩ : ∃ first, others[0]? = some first := ⟨_, List.getElem?_eq_getElem hlength⟩
    simp only [readAt_positions, checkedI64_eq_ok, hget]
    constructor
    · rintro ⟨position, ⟨_, hsame, hnumber, rfl⟩, -⟩
      cases hsame
      refine ⟨fun _ t ht ↦ ?_, fun h ↦ absurd h hlength.ne, fun _ _ h ↦ absurd h (lt_irrefl 0)⟩
      cases hget.symm.trans ht
      exact hnumber
    · intro hroom
      refine ⟨_, ⟨first, rfl, hroom.first rfl first hget, rfl⟩, fun _ h ↦ absurd rfl h, ?_⟩
      rintro _ ⟨_, hsame, rfl⟩
      cases hsame
      exact Prod.Lex.toLex_lt_toLex.mpr (.inl (sub_lt_self _ (by decide)))
  · obtain rfl : slot = others.length := le_antisymm hslot hlast
    have hi : others.length - 1 < others.length := Nat.sub_one_lt hfirst
    obtain ⟨last, hget⟩ : ∃ last, others[others.length - 1]? = some last := ⟨_, List.getElem?_eq_getElem hi⟩
    have hend : others.getLast? = some last := by rwa [List.getLast?_eq_getElem?]
    have hbeyond : others[others.length]? = none := List.getElem?_eq_none le_rfl
    simp only [readAt_positions, checkedI64_eq_ok, hget, hbeyond]
    constructor
    · rintro ⟨position, ⟨_, hsame, hnumber, rfl⟩, -⟩
      cases hsame
      refine ⟨fun h ↦ absurd h hfirst, fun _ t ht ↦ ?_, fun _ _ _ _ h ↦ by rw [hbeyond] at h; cases h⟩
      cases hend.symm.trans ht
      exact hnumber
    · intro hroom
      refine ⟨_, ⟨last, rfl, hroom.last rfl last hend, rfl⟩, ?_, by simp⟩
      rintro _ - ⟨_, hsame, rfl⟩
      cases hsame
      exact Prod.Lex.toLex_lt_toLex.mpr (.inl (lt_add_of_pos_right _ (by decide)))
  · have hbelow : slot < others.length := not_le.mp hlast
    have habove : slot - 1 < others.length := (Nat.sub_le _ _).trans_lt hbelow
    obtain ⟨before, hbefore⟩ : ∃ before, others[slot - 1]? = some before := ⟨_, List.getElem?_eq_getElem habove⟩
    obtain ⟨after, hafter⟩ : ∃ after, others[slot]? = some after := ⟨_, List.getElem?_eq_getElem hbelow⟩
    have hless : manualKey before.toTaskRow < manualKey after.toTaskRow := by
      obtain ⟨_, rfl⟩ := List.getElem?_eq_some_iff.mp hbefore
      obtain ⟨_, rfl⟩ := List.getElem?_eq_some_iff.mp hafter
      exact List.pairwise_iff_getElem.mp hsorted _ _ _ _ (Nat.sub_one_lt hfirst)
    have hroom := between_iff task (hnumbers _ (List.mem_of_getElem? hbefore))
      (hnumbers _ (List.mem_of_getElem? hafter)) hless
    simp only [readAt_positions, hbefore, hafter, Option.some.injEq, exists_eq_left', forall_eq', ne_eq, hfirst,
      not_false_eq_true, forall_const]
    rw [hroom]
    constructor
    · refine fun h ↦ ⟨fun h ↦ absurd h hfirst, fun h ↦ absurd h hbelow.ne, fun t u _ ht hu ↦ ?_⟩
      cases hbefore.symm.trans ht
      cases hafter.symm.trans hu
      exact h
    · exact fun h ↦ h.between before after (Nat.pos_of_ne_zero hfirst) hbefore hafter

/-- It lies behind the position of the task above the slot. -/
theorem lt_slotPosition {position : ℤ} (hslot : 0 < slot)
    (hposition : BoardView.slotPosition (others.map fun t ↦ t.position) slot = .ok position) {before : Task}
    (hbefore : others[slot - 1]? = some before) : before.position < position := by
  unfold BoardView.slotPosition at hposition
  rw [if_neg hslot.ne', List.length_map] at hposition
  split_ifs at hposition with hlast
  · rw [readAt_positions] at hposition
    obtain ⟨last, hget, hnumber⟩ := hposition
    obtain ⟨-, rfl⟩ := checkedI64_eq_ok.mp hnumber
    obtain ⟨hwithin, -⟩ := List.getElem?_eq_some_iff.mp hbefore
    obtain rfl : slot = others.length := by omega
    cases hbefore.symm.trans hget
    exact lt_add_of_pos_right _ (by decide)
  · obtain ⟨t, ht, hposition⟩ := readAt_positions.mp hposition
    cases hbefore.symm.trans ht
    obtain ⟨after, -, hposition⟩ := readAt_positions.mp hposition
    obtain ⟨gap, -, hnumber⟩ := Outcome.bind_eq_ok.mp hposition
    split_ifs at hnumber with hwide
    · obtain ⟨-, rfl⟩ := checkedI64_eq_ok.mp hnumber
      omega
    · obtain ⟨-, rfl⟩ := checkedI64_eq_ok.mp hnumber
      exact lt_add_one _

end Drops

section Landing

variable {view : BoardView} {s : Store} {column : Column} {task : Task}

/-- A drop on a column on screen asks for the position of a slot. -/
theorem request_drop {source target y : ℕ} {slot : List (TaskId × Area)}
    (hhere : view.board.columns[target]? = some column) (hoffset : view.colOffset ≤ target)
    (hareas : view.taskAreas[target - view.colOffset]? = some slot) :
    (Reorder.drop source target y).request view task =
      if (view.tasksIn target).filter (fun t ↦ t.id != task.id) = [] then .ok ⟨task.id, column.id, some 0⟩
      else (BoardView.slotPosition (((view.tasksIn target).filter fun t ↦ t.id != task.id).map fun t ↦ t.position)
        (min (BoardView.cardsAbove slot y task.id + Reorder.scrolled view target)
          ((view.tasksIn target).filter fun t ↦ t.id != task.id).length)).bind fun position ↦
            .ok ⟨task.id, column.id, some position⟩ := by
  have hcolumnId : view.columnId target = some column.id := by simp [BoardView.columnId, hhere]
  simp only [Reorder.request, dropCard, BoardView.dropPosition, hareas, if_neg (not_lt.mpr hoffset), hcolumnId,
    List.map_eq_nil_iff, List.length_map]
  split_ifs with hnone
  · simp
  · unfold Reorder.scrolled
    generalize BoardView.slotPosition _ _ = position
    cases position <;> simp

theorem lands_drop_iff {source target y : ℕ} (hshows : view.Shows s)
    (happlies : (Reorder.drop source target y).Applies view task column) (htask : task ∈ view.tasks) :
    (Reorder.drop source target y).Lands view task s ↔ (Reorder.drop source target y).HasRoom view task := by
  obtain ⟨hoffset, height, bottom, top, hareas⟩ := happlies.drawn source target y rfl
  have hhere : view.board.columns[target]? = some column := happlies.here
  have hsorted := pairwise_tasksIn hshows hhere happlies.manual
  have hids : ((view.tasksIn target).map fun t ↦ t.id).Nodup := by
    have hkeys : ((view.tasksIn target).map fun t ↦ t.id) = s.columnOrder view.board.id column.id := by
      rw [columnOrder_eq, ← tasksIn_keys hshows hhere happlies.manual, List.map_map]
      rfl
    rw [hkeys]
    exact nodup_columnOrder hshows.ids
  have hslot : (Reorder.drop source target y).slot view task = some (Reorder.aboveLine view task target y) := rfl
  obtain ⟨hle, hindex⟩ := index_eq task.id hids (Reorder.scrolled view target)
    (BoardView.cardsAbove (drawCards height bottom top ((view.tasksIn target).drop (Reorder.scrolled view target))) y
      task.id) (cardsAbove_le _ _ _)
  have habove : Reorder.aboveLine view task target y =
      ((view.tasksIn target).take (Reorder.scrolled view target)).countP (fun t ↦ t.id != task.id) +
        BoardView.cardsAbove (drawCards height bottom top ((view.tasksIn target).drop (Reorder.scrolled view target))) y
          task.id := by
    rw [Reorder.aboveLine, hareas]
    rfl
  rw [← habove] at hle hindex
  rw [lands_iff_fits hshows happlies htask hslot hle, request_drop hhere hoffset hareas, hindex]
  simp only [Reorder.HasRoom, Reorder.column] at hle ⊢
  have hothers := hsorted.filter fun t ↦ t.id != task.id
  have hnumbers : ∀ t ∈ (view.tasksIn target).filter fun t ↦ t.id != task.id, InI64 t.position := by
    intro t ht
    have hmem := (mem_tasksIn hshows hhere happlies.manual).mp (List.mem_of_mem_filter ht)
    exact hshows.positions t hmem.1
  generalize (view.tasksIn target).filter (fun t ↦ t.id != task.id) = others at *
  generalize Reorder.aboveLine view task target y = slot at *
  split_ifs with hnone hhidden
  · subst hnone
    obtain rfl : slot = 0 := Nat.le_zero.mp hle
    exact iff_of_true ⟨0, rfl, by simp [Fits]⟩ fun h ↦ absurd rfl h
  · -- The card is scrolled off above: it goes one slot too far, except at the bottom.
    have hsent (position : ℤ) : ((BoardView.slotPosition (others.map fun t ↦ t.position)
        (min (slot + 1) others.length)).bind fun p ↦ (.ok ⟨task.id, column.id, some p⟩ : Reply MoveRequest)) =
          .ok ⟨task.id, column.id, some position⟩ ↔
        BoardView.slotPosition (others.map fun t ↦ t.position) (min (slot + 1) others.length) = .ok position := by
      simp [Outcome.bind_eq_ok]
    simp only [hsent]
    rcases hle.lt_or_eq with hlt | rfl
    · rw [min_eq_left (by omega)]
      refine iff_of_false ?_ fun h ↦ hlt.ne ((h hnone).1 hhidden)
      rintro ⟨position, hposition, hfits⟩
      have hbehind := lt_slotPosition (Nat.succ_pos slot) hposition (List.getElem?_eq_getElem hlt)
      have hnext : manualKey others[slot].toTaskRow ∈ (others.map fun t ↦ manualKey t.toTaskRow).drop slot :=
        List.mem_drop_iff_getElem.mpr ⟨0, by simpa using hlt, by simp⟩
      rcases Prod.Lex.toLex_lt_toLex.mp (hfits.2 _ hnext) with hbefore | ⟨hsame, -⟩
      · exact lt_asymm hbehind hbefore
      · exact hbehind.ne hsame.symm
    · rw [min_eq_right (by omega), slotPosition_fits_iff hothers hnumbers hnone le_rfl]
      exact ⟨fun h _ ↦ ⟨fun _ ↦ rfl, h⟩, fun h ↦ (h hnone).2⟩
  · have hsent (position : ℤ) : ((BoardView.slotPosition (others.map fun t ↦ t.position) slot).bind fun p ↦
        (.ok ⟨task.id, column.id, some p⟩ : Reply MoveRequest)) = .ok ⟨task.id, column.id, some position⟩ ↔
        BoardView.slotPosition (others.map fun t ↦ t.position) slot = .ok position := by
      simp [Outcome.bind_eq_ok]
    simp only [hsent]
    rw [slotPosition_fits_iff hothers hnumbers hnone hle]
    exact ⟨fun h _ ↦ ⟨fun hmem ↦ absurd hmem hhidden, h⟩, fun h ↦ (h hnone).2⟩

/-- **Where a reordering lands.** In a manually ordered column a task comes to stand where it was put, with the others in
order, exactly if there is room. -/
theorem reorder_lands_iff {reorder : Reorder} (hshows : view.Shows s) (happlies : reorder.Applies view task column)
    (htask : task ∈ view.tasks) : reorder.Lands view task s ↔ reorder.HasRoom view task := by
  cases reorder with
  | code command =>
    cases command with
    | up => exact lands_up_iff hshows happlies htask (.inl rfl)
    | down => exact lands_down_iff hshows happlies htask (.inl rfl)
    | top => exact lands_top_iff hshows happlies htask
    | bottom => exact lands_bottom_iff hshows happlies htask
  | key down =>
    cases down with
    | false => exact lands_up_iff hshows happlies htask (.inr rfl)
    | true => exact lands_down_iff hshows happlies htask (.inr rfl)
  | drop source target y => exact lands_drop_iff hshows happlies htask

end Landing

/-! ### Three tasks -/

/-- A board with three tasks in its first column. -/
def threeTasks (first second third : ℤ) : Store :=
  { Store.empty with
    boards := [boardWithMembers 1 [1]]
    tasks := [newTaskRow 1 (.fromIndex 0) first (boardWithMembers 1 [1]) 1 TaskDraft.default 1 none 0,
      newTaskRow 2 (.fromIndex 1) second (boardWithMembers 1 [1]) 1 TaskDraft.default 1 none 0,
      newTaskRow 3 (.fromIndex 2) third (boardWithMembers 1 [1]) 1 TaskDraft.default 1 none 0]
    nextBoard := 2
    nextColumn := 5
    nextTask := 4 }

/-- The board on a screen with nothing scrolled. -/
def onScreen (s : Store) : BoardView := ⟨boardWithMembers 1 [1], s.listTasks 1, 0, [], [], none⟩

/-- One reordering, from the screen to the server. -/
def reorderOnce (s : Store) (move : TaskId × Reorder) : Store :=
  match (onScreen s).tasks.find? fun t ↦ t.id == move.1 with
  | none => s
  | some task =>
    match move.2.request (onScreen s) task with
    | .ok ⟨_, column, position⟩ =>
      match applyMove (.still 0) task ⟨task.columnId, column, none, []⟩ position s with
      | .ok (_, s') => s'
      | .error _ => s
    | _ => s

/-- The last task goes up one, between the other two. -/
theorem threeTasks_up_lands :
    (Reorder.code .up).Lands (onScreen (threeTasks 0 10 20)) (((threeTasks 0 10 20).task 3).get (by decide +kernel))
      (threeTasks 0 10 20) := by
  have hshows : (onScreen (threeTasks 0 10 20)).Shows (threeTasks 0 10 20) :=
    ⟨by decide +kernel, rfl, by decide +kernel, by decide⟩
  have happlies : (Reorder.code .up).Applies (onScreen (threeTasks 0 10 20))
      (((threeTasks 0 10 20).task 3).get (by decide +kernel)) ⟨1, text "Todo", 0, false⟩ :=
    ⟨by decide +kernel, rfl, fun _ _ _ _ ↦ by decide +kernel, nofun⟩
  have hroom : ∀ neighbour ∈ ((onScreen (threeTasks 0 10 20)).tasksIn 0)[1]?, InI64 (neighbour.position - 1) ∧
      ∀ beyond ∈ ((onScreen (threeTasks 0 10 20)).tasksIn 0).take 1,
        manualKey beyond.toTaskRow < toLex (neighbour.position - 1, 3) := by decide +kernel
  exact (reorder_lands_iff hshows happlies (by decide +kernel)).mpr fun neighbour _ h ↦ hroom neighbour h

/-- The first task after it went down one and the last one went up one. -/
def crowded : Store := [(1, .key true), (3, .key false)].foldl reorderOnce (threeTasks 0 10 20)

/-- Going up one, it goes past both of the others. -/
theorem crowded_up_oversteps :
    crowded.columnOrder 1 1 = [2, 3, 1] ∧
      ¬ (Reorder.key false).Lands (onScreen crowded) ((crowded.task 1).get (by decide +kernel)) crowded := by
  refine ⟨by decide +kernel, fun hlands ↦ ?_⟩
  have hshows : (onScreen crowded).Shows crowded := ⟨by decide +kernel, rfl, by decide +kernel, by decide +kernel⟩
  have happlies : (Reorder.key false).Applies (onScreen crowded) ((crowded.task 1).get (by decide +kernel))
      ⟨1, text "Todo", 0, false⟩ :=
    ⟨by decide +kernel, rfl, fun _ _ _ _ ↦ by decide +kernel, nofun⟩
  have hroom := (lands_up_iff hshows happlies (by decide +kernel) (.inr rfl)).mp hlands
  have hnone : ¬ ∀ neighbour ∈ ((onScreen crowded).tasksIn 0)[1]?, InI64 (neighbour.position - 1) ∧
      ∀ beyond ∈ ((onScreen crowded).tasksIn 0).take 1,
        manualKey beyond.toTaskRow < toLex (neighbour.position - 1, 1) := by decide +kernel
  exact hnone fun neighbour h ↦ hroom neighbour (by decide +kernel) h

end Taskologic.Client
