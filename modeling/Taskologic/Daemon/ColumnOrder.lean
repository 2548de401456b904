import Mathlib.Data.Prod.Lex
import Taskologic.Daemon.Accounts
import Taskologic.Library.Slots

/-!
# The order of a column

Tasks are listed by column, position and id, so the order of a column is that of the keys `manualKey` of its live tasks
(`columnOrder_eq`). A move with a position gives one task a new key. It then stands in a slot of the others exactly if
that key fits there (`applyMove_lands_iff`).
-/

set_option autoImplicit false
set_option relaxedAutoImplicit false

namespace Taskologic.Daemon

open Library Core

/-- What a manually ordered column is ordered by. -/
def manualKey (row : TaskRow) : ℤ ×ₗ TaskId := toLex (row.position, row.id)

/-- What the tasks of a board are listed by. -/
def listKey (row : TaskRow) : ColumnId ×ₗ ℤ ×ₗ TaskId := toLex (row.columnId, manualKey row)

namespace Store

variable (s : Store)

/-- `list_tasks` of what is not archived. -/
def listTasks (board : BoardId) : List Task :=
  (sortByKey listKey (s.tasks.filter fun row ↦ row.boardId == board && !row.isArchived)).map s.hydrate

/-- The tasks of a column in the order in which they are listed. -/
def columnOrder (board : BoardId) (column : ColumnId) : List TaskId :=
  ((s.listTasks board).filter fun task ↦ task.columnId == column).map fun task ↦ task.id

/-- The live tasks of a board that are in a column. -/
def shownIn (board : BoardId) (column : ColumnId) : List TaskRow :=
  s.tasks.filter fun row ↦ row.boardId == board && !row.isArchived && row.columnId == column

/-- The keys of a column in order. -/
def columnKeys (board : BoardId) (column : ColumnId) : List (ℤ ×ₗ TaskId) :=
  ((s.shownIn board column).map manualKey).insertionSort (· ≤ ·)

end Store

/-- The task a key belongs to. -/
def keyTask (key : ℤ ×ₗ TaskId) : TaskId := (ofLex key).2

variable {s s' : Store} {board : BoardId} {column : ColumnId} {id : TaskId}

@[simp] theorem keyTask_manualKey (row : TaskRow) : keyTask (manualKey row) = row.id := rfl

@[simp] theorem hydrate_toTaskRow (s : Store) (row : TaskRow) : (s.hydrate row).toTaskRow = row := rfl

theorem mem_liveIn {row : TaskRow} :
    row ∈ s.liveIn column ↔ row ∈ s.tasks ∧ row.columnId = column ∧ row.isArchived = false := by
  simp [Store.liveIn, List.mem_filter]

/-- The next position is behind the live tasks. -/
theorem lt_nextPosition {row : TaskRow} (hrow : row ∈ s.liveIn column) :
    row.position < s.nextPosition column := by
  have hposition : row.position ∈ (s.liveIn column).map TaskRow.position := List.mem_map_of_mem hrow
  rw [Store.nextPosition]
  cases hmax : ((s.liveIn column).map TaskRow.position).max? with
  | none =>
    rw [List.max?_eq_none_iff.mp hmax] at hposition
    cases hposition
  | some most =>
    have := (List.max?_eq_some_iff.mp hmax).2 _ hposition
    rw [Option.getD_some]
    omega

/-- What is listed of a column is in order, and it is all that is live there. -/
theorem listed_keys_eq :
    ((s.listTasks board).filter fun task ↦ task.columnId == column).map (fun task ↦ manualKey task.toTaskRow) =
      s.columnKeys board column := by
  have hrows : ((s.listTasks board).filter fun task ↦ task.columnId == column).map
      (fun task ↦ manualKey task.toTaskRow) =
      ((sortByKey listKey (s.tasks.filter fun row ↦ row.boardId == board && !row.isArchived)).filter
        fun row ↦ row.columnId == column).map manualKey := by
    rw [Store.listTasks, List.filter_map, List.map_map]
    rfl
  rw [hrows]
  refine List.Perm.eq_of_pairwise' (r := (· ≤ ·)) ?_ (List.pairwise_insertionSort _ _) ?_
  · have hsorted := (pairwise_sortByKey listKey (s.tasks.filter fun row ↦ row.boardId == board && !row.isArchived)).filter
      fun row ↦ row.columnId == column
    refine List.pairwise_map.mpr (hsorted.imp_of_mem fun {a b} ha hb hle ↦ ?_)
    have hcolumns : a.columnId = b.columnId := by
      have ha := (List.mem_filter.mp ha).2
      have hb := (List.mem_filter.mp hb).2
      simp only [beq_iff_eq] at ha hb
      rw [ha, hb]
    rcases Prod.Lex.le_iff.mp hle with hlt | ⟨-, hkeys⟩
    · exact absurd hcolumns hlt.ne
    · exact hkeys
  · refine List.Perm.trans ?_ (List.perm_insertionSort _ _).symm
    refine (((perm_sortByKey listKey _).filter _).map _).trans (List.Perm.of_eq ?_)
    rw [List.filter_filter, Store.shownIn]
    exact congrArg _ (List.filter_congr fun row _ ↦ Bool.and_comm _ _)

theorem columnOrder_eq : s.columnOrder board column = (s.columnKeys board column).map keyTask := by
  rw [← listed_keys_eq, List.map_map]
  rfl

/-- No two tasks of a column have one key. -/
theorem pairwise_columnKeys (hids : (s.tasks.map TaskRow.id).Nodup) :
    (s.columnKeys board column).Pairwise (· < ·) := by
  have hnodup : ((s.shownIn board column).map manualKey).Nodup := by
    have hrows : ((s.shownIn board column).map TaskRow.id).Nodup := hids.sublist (List.filter_sublist.map _)
    refine List.Nodup.of_map keyTask ?_
    rwa [List.map_map]
  have hsorted := List.pairwise_insertionSort (· ≤ ·) ((s.shownIn board column).map manualKey)
  have hdistinct := (List.perm_insertionSort (· ≤ ·) ((s.shownIn board column).map manualKey)).nodup_iff.mpr hnodup
  exact (hsorted.and hdistinct).imp fun h ↦ h.1.lt_of_ne h.2

theorem nodup_columnOrder (hids : (s.tasks.map TaskRow.id).Nodup) : (s.columnOrder board column).Nodup := by
  have hlisted : (s.columnOrder board column).Perm ((s.shownIn board column).map TaskRow.id) := by
    rw [columnOrder_eq, Store.columnKeys]
    refine ((List.perm_insertionSort _ _).map keyTask).trans (List.Perm.of_eq ?_)
    rw [List.map_map]
    rfl
  exact hlisted.nodup_iff.mpr (hids.sublist (List.filter_sublist.map _))

/-- The other tasks of a column, by their keys. -/
def Store.otherKeys (s : Store) (board : BoardId) (column : ColumnId) (task : TaskId) : List (ℤ ×ₗ TaskId) :=
  (s.columnKeys board column).filter fun key ↦ keyTask key != task

theorem map_otherKeys (hids : (s.tasks.map TaskRow.id).Nodup) (task : TaskId) :
    (s.otherKeys board column task).map keyTask = (s.columnOrder board column).erase task := by
  rw [(nodup_columnOrder hids).erase_eq_filter, columnOrder_eq, List.filter_map]
  rfl

/-! ### A move -/

/-- A task whose row is changed into the column joins the others there. -/
theorem shownIn_modifyTask {row : TaskRow} {f : TaskRow → TaskRow} (hids : (s.tasks.map TaskRow.id).Nodup)
    (hrow : s.taskRow id = some row) (hshown : (f row).boardId == board &&
      !(f row).isArchived && (f row).columnId == column) :
    ((s.modifyTask id f).shownIn board column).Perm
      (f row :: (s.shownIn board column).filter fun other ↦ other.id != id) := by
  have hrowid := Store.id_of_taskRow hrow
  obtain ⟨before, after, hsplit⟩ := List.append_of_mem (List.mem_of_find?_eq_some hrow)
  rw [hsplit, List.map_append, List.map_cons] at hids
  have hapart : ∀ other, other ∈ before ∨ other ∈ after → other.id ≠ id := by
    intro other hother heq
    obtain ⟨hmiddle, -⟩ := List.nodup_cons.mp (List.perm_middle.nodup_iff.mp hids)
    apply hmiddle
    rw [hrowid, ← heq, ← List.map_append]
    exact List.mem_map_of_mem (List.mem_append.mpr hother)
  have hkeep {rows : List TaskRow} (hrows : ∀ other ∈ rows, other.id ≠ id) :
      rows.map (fun row ↦ if row.id = id then f row else row) = rows := by
    conv_rhs => rw [← List.map_id rows]
    exact List.map_congr_left fun other hother ↦ if_neg (hrows other hother)
  have hchanged : (s.modifyTask id f).tasks = before ++ f row :: after := by
    simp only [Store.modifyTask, hsplit, List.map_append, List.map_cons, if_pos hrowid]
    rw [hkeep fun other h ↦ hapart other (.inl h), hkeep fun other h ↦ hapart other (.inr h)]
  have hall {rows : List TaskRow} (hrows : ∀ other ∈ rows, other.id ≠ id) :
      (rows.filter fun other ↦ other.boardId == board && !other.isArchived && other.columnId == column).filter
        (fun other ↦ other.id != id) =
      rows.filter fun other ↦ other.boardId == board && !other.isArchived && other.columnId == column := by
    refine List.filter_eq_self.mpr fun other hother ↦ ?_
    simpa using hrows other (List.mem_filter.mp hother).1
  simp only [Store.shownIn, hchanged, hsplit, List.filter_append, List.filter_cons, hshown, if_true]
  rw [hall fun other h ↦ hapart other (.inl h)]
  refine List.perm_middle.trans (List.Perm.cons _ (List.Perm.append_left _ (List.Perm.of_eq ?_)))
  split_ifs
  · rw [List.filter_cons_of_neg (by simp [hrowid]), hall fun other h ↦ hapart other (.inr h)]
  · rw [hall fun other h ↦ hapart other (.inr h)]

/-- A move to a column that is there goes through. -/
theorem applyMove_some (outside : Outside) (position : ℤ) {task : Task} {plan : MovePlan} {row : TaskRow}
    (hcolumn : s.hasColumn plan.destination = true) (hrow : s.taskRow task.id = some row) :
    ∃ moved s', applyMove outside task plan (some position) s = .ok (moved, s') ∧
      s'.tasks = (s.modifyTask task.id (movedRow plan position)).tasks := by
  have hid (row : TaskRow) : (movedRow plan position row).id = row.id := rfl
  have hmoved : (s.modifyTask task.id (movedRow plan position)).taskRow task.id = some (movedRow plan position row) := by
    rw [Store.taskRow_modifyTask task.id task.id hid, if_pos rfl, hrow]
    rfl
  let logged (log : List EventRow) : Store := { s.modifyTask task.id (movedRow plan position) with events := log }
  have hlogged (log : List EventRow) : ∃ moved, (logged log).task task.id = some moved := ⟨_, congrArg _ hmoved⟩
  by_cases hcross : plan.source ≠ plan.destination
  · let line : EventRow := ⟨task.boardId, task.id, none, .taskMoved plan.source plan.destination, outside.now⟩
    obtain ⟨moved, hfound⟩ := hlogged (s.events ++ [line])
    refine ⟨moved, logged (s.events ++ [line]), ?_, rfl⟩
    simp only [applyMove, movedPosition, Tx.bind_eq_ok, demand_eq_ok, Tx.write_eq_ok, Tx.pure_eq_ok, if_pos hcross,
      recordEvent_eq_ok, requireTask_eq_ok]
    exact ⟨_, _, rfl, _, _, ⟨hcolumn, rfl⟩, _, _, rfl, _, _, rfl, _, hfound, rfl⟩
  · obtain ⟨moved, hfound⟩ := hlogged s.events
    refine ⟨moved, logged s.events, ?_, rfl⟩
    simp only [applyMove, movedPosition, Tx.bind_eq_ok, demand_eq_ok, Tx.write_eq_ok, Tx.pure_eq_ok, if_neg hcross,
      requireTask_eq_ok]
    exact ⟨_, _, rfl, _, _, ⟨hcolumn, rfl⟩, _, _, rfl, _, hfound, rfl⟩

/-- The keys of the column after a move: the others' and the new one. -/
theorem keys_moved {task : Task} {plan : MovePlan} {position : ℤ} {row : TaskRow}
    (hids : (s.tasks.map TaskRow.id).Nodup) (hrow : s.taskRow task.id = some row) (hlive : row.isArchived = false)
    (hboard : row.boardId = board) (htasks : s'.tasks = (s.modifyTask task.id (movedRow plan position)).tasks) :
    ((s'.shownIn board plan.destination).map manualKey).Perm
      (toLex (position, task.id) :: s.otherKeys board plan.destination task.id) := by
  have hjoined : (movedRow plan position row).boardId == board && !(movedRow plan position row).isArchived &&
      (movedRow plan position row).columnId == plan.destination := by
    have hstill : (movedRow plan position row).isArchived = false := hlive
    rw [hstill]
    simp [movedRow, hboard]
  have hsame : s'.shownIn board plan.destination =
      (s.modifyTask task.id (movedRow plan position)).shownIn board plan.destination := by
    rw [Store.shownIn, htasks]
    rfl
  have hkey : manualKey (movedRow plan position row) = toLex (position, task.id) := by
    rw [← Store.id_of_taskRow hrow]
    rfl
  have hothers : ((s.shownIn board plan.destination).filter fun other ↦ other.id != task.id).map manualKey =
      ((s.shownIn board plan.destination).map manualKey).filter fun key ↦ keyTask key != task.id := by
    rw [List.filter_map]
    rfl
  rw [hsame]
  refine ((shownIn_modifyTask hids hrow hjoined).map manualKey).trans ?_
  rw [List.map_cons, hkey, hothers]
  exact List.Perm.cons _ ((List.perm_insertionSort _ _).symm.filter _)

/-- Where a move lands: a task moved with a position stands in a slot of the others of its column exactly if its key
fits there. -/
theorem applyMove_lands_iff {outside : Outside} {task : Task} {plan : MovePlan} {position : ℤ} {row : TaskRow}
    {slot : ℕ} (hids : (s.tasks.map TaskRow.id).Nodup) (hcolumn : s.hasColumn plan.destination = true)
    (hrow : s.taskRow task.id = some row) (hlive : row.isArchived = false) (hboard : row.boardId = board)
    (hslot : slot ≤ (s.otherKeys board plan.destination task.id).length) :
    (∃ moved s', applyMove outside task plan (some position) s = .ok (moved, s') ∧
        s'.columnOrder board plan.destination =
          ((s.columnOrder board plan.destination).erase task.id).insertIdx slot task.id) ↔
      Fits (s.otherKeys board plan.destination task.id) slot (toLex (position, task.id)) := by
  obtain ⟨moved, s', hrun, htasks⟩ := applyMove_some outside position hcolumn hrow
  have hfresh : keyTask (toLex (position, task.id)) ∉ (s.otherKeys board plan.destination task.id).map keyTask := by
    rw [map_otherKeys hids]
    exact (nodup_columnOrder hids).not_mem_erase
  have hlands := map_insertionSort_eq_insertIdx_iff (keys_moved hids hrow hlive hboard htasks)
    ((pairwise_columnKeys hids).filter _) hfresh hslot
  rw [map_otherKeys hids] at hlands
  rw [← hlands]
  have horder : s'.columnOrder board plan.destination =
      (((s'.shownIn board plan.destination).map manualKey).insertionSort (· ≤ ·)).map keyTask := columnOrder_eq
  constructor
  · rintro ⟨_, _, hrun', hsame⟩
    rw [hrun] at hrun'
    cases hrun'
    rw [← horder]
    exact hsame
  · intro hsame
    exact ⟨moved, s', hrun, horder.trans hsame⟩

end Taskologic.Daemon
