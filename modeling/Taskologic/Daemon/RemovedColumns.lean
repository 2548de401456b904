import Taskologic.Daemon.ColumnOrder

/-!
# The tasks of a removed column

Removing a column appends its tasks to another one with a single bulk update, whose new positions count rows of the
table it is rewriting. `Appended` is what is promised: the tasks of the destination come first, then the moved ones in
their old order, and nothing but column, position and version of a task has changed.

The count of a row depends on which rows are rewritten before it. `removeColumn_appends_iff` says for which tasks the
promise holds in whatever order the rows are visited, the rewritten ones seen or not: only where every task that has
another one behind it is at the lowest position of the column and has the smaller id (`LowestFirst`), and the positions
stay in sixty-four bits (`RoomBehind`).
-/

set_option autoImplicit false
set_option relaxedAutoImplicit false

namespace Taskologic.Daemon

open Library Core

/-! ### What is promised -/

/-- The tasks of a removed column are behind those of the destination. -/
structure Appended (board : BoardId) (removed destination : ColumnId) (s s' : Store) : Prop where
  order : s'.columnOrder board destination = s.columnOrder board destination ++ s.columnOrder board removed
  kept : ∀ id task, s.task id = some task → ∃ task', s'.task id = some task' ∧
    task' = { task with columnId := task'.columnId, position := task'.position, version := task'.version }
  stored : ∀ row ∈ s.tasks, row.columnId = removed → ∀ moved, s'.taskRow row.id = some moved → moved.position < 2 ^ 63

/-- The rows are visited one after another. -/
def Sweep.Visits (sweep : Sweep) (s : Store) : Prop := (s.tasks.map fun row ↦ sweep.rank row.id).Nodup

instance decidableVisits (sweep : Sweep) (s : Store) : Decidable (sweep.Visits s) :=
  inferInstanceAs (Decidable (List.Nodup _))

/-- Every live task of the column that has another one behind it is at the lowest position there, archived tasks
counted, and has the smaller id. -/
def LowestFirst (s : Store) (board : BoardId) (removed : ColumnId) : Prop :=
  ∀ a ∈ s.shownIn board removed, ∀ b ∈ s.shownIn board removed, manualKey a < manualKey b →
    a.id < b.id ∧ ∀ row ∈ s.tasks, row.columnId = removed → a.position ≤ row.position

/-- The column the tasks go to has room behind its last one. -/
def RoomBehind (s : Store) (removed destination : ColumnId) : Prop :=
  ∀ row ∈ s.tasks, row.columnId = removed →
    s.nextPosition destination +
      (s.tasks.countP fun other ↦ other.columnId == removed && decide (other.position < row.position)) * 10 < 2 ^ 63

/-! ### What the update writes -/

section Update

variable {s : Store} {sweep : Sweep} {board : BoardId} {removed destination : ColumnId} {base : ℤ} {row : TaskRow}

/-- A row of the removed column after the update. -/
def swept (s : Store) (sweep : Sweep) (removed destination : ColumnId) (base : ℤ) (row : TaskRow) : TaskRow :=
  { row with
    columnId := destination
    position := base + crowd s sweep removed row * 10
    version := row.version + 1 }

theorem tasks_moveTasks :
    (s.moveTasks sweep removed destination base).tasks =
      s.tasks.map fun row ↦ if row.columnId = removed then swept s sweep removed destination base row else row := rfl

theorem taskRow_moveTasks (id : TaskId) :
    (s.moveTasks sweep removed destination base).taskRow id =
      (s.taskRow id).map fun row ↦ if row.columnId = removed then swept s sweep removed destination base row else row := by
  rw [Store.taskRow, Store.taskRow, tasks_moveTasks, List.find?_map]
  congr 2
  funext row
  rw [Function.comp_apply]
  split_ifs <;> rfl

theorem shownIn_moveTasks (hne : destination ≠ removed) :
    ((s.moveTasks sweep removed destination base).shownIn board destination).Perm
      (s.shownIn board destination ++
        (s.shownIn board removed).map (swept s sweep removed destination base)) := by
  rw [Store.shownIn, tasks_moveTasks, Store.shownIn, Store.shownIn]
  generalize hf : swept s sweep removed destination base = f
  have hboard (row : TaskRow) : (f row).boardId = row.boardId := by rw [← hf]; rfl
  have harchived (row : TaskRow) : (f row).isArchived = row.isArchived := by rw [← hf]; rfl
  have hcolumn (row : TaskRow) : (f row).columnId = destination := by rw [← hf]; rfl
  clear hf
  generalize s.tasks = rows
  induction rows with
  | nil => rfl
  | cons row rest ih =>
    by_cases hremoved : row.columnId = removed
    · have hhere : (row.columnId == destination) = false := by
        rw [hremoved]
        simpa using hne.symm
      have hthere : (row.columnId == removed) = true := by simpa using hremoved
      simp only [List.map_cons, if_pos hremoved, List.filter_cons, hboard, harchived, hcolumn, hhere, hthere,
        beq_self_eq_true, Bool.and_true, Bool.and_false, if_neg Bool.false_ne_true]
      split_ifs
      · exact (ih.cons _).trans List.perm_middle.symm
      · exact ih
    · have haway : (row.columnId == removed) = false := by simpa using hremoved
      simp only [List.map_cons, if_neg hremoved, List.filter_cons, haway, Bool.and_false,
        if_neg Bool.false_ne_true]
      split_ifs
      · exact ih.cons _
      · exact ih

/-- What is moved comes behind every live task of the destination. -/
theorem position_lt_nextPosition (hrow : row ∈ s.shownIn board destination) :
    row.position < s.nextPosition destination := by
  obtain ⟨hmem, hshown⟩ := List.mem_filter.mp hrow
  refine lt_nextPosition (mem_liveIn.mpr ⟨hmem, ?_⟩)
  simp only [Bool.and_eq_true, beq_iff_eq, Bool.not_eq_true'] at hshown
  exact ⟨hshown.2, hshown.1.2⟩

/-- The order of the destination after the update: what was there, then the moved tasks by their new keys. -/
theorem columnOrder_moveTasks (hne : destination ≠ removed) :
    (s.moveTasks sweep removed destination (s.nextPosition destination)).columnOrder board destination =
      s.columnOrder board destination ++
        (((s.shownIn board removed).map fun row ↦
          manualKey (swept s sweep removed destination (s.nextPosition destination) row)).insertionSort (· ≤ ·)).map
            keyTask := by
  have hkeys : ((s.moveTasks sweep removed destination (s.nextPosition destination)).shownIn board destination).map
      manualKey |>.Perm ((s.shownIn board destination).map manualKey ++ (s.shownIn board removed).map fun row ↦
        manualKey (swept s sweep removed destination (s.nextPosition destination) row)) := by
    refine ((shownIn_moveTasks hne).map manualKey).trans (List.Perm.of_eq ?_)
    rw [List.map_append, List.map_map]
    rfl
  have hbelow : ∀ a ∈ (s.shownIn board destination).map manualKey, ∀ b ∈ (s.shownIn board removed).map fun row ↦
      manualKey (swept s sweep removed destination (s.nextPosition destination) row), a ≤ b := by
    intro a ha b hb
    obtain ⟨here, hhere, rfl⟩ := List.mem_map.mp ha
    obtain ⟨moved, -, rfl⟩ := List.mem_map.mp hb
    have hlt := position_lt_nextPosition hhere
    refine Prod.Lex.le_iff.mpr (.inl ?_)
    change here.position < s.nextPosition destination + (crowd s sweep removed moved : ℤ) * 10
    omega
  rw [columnOrder_eq, columnOrder_eq, Store.columnKeys, Store.columnKeys, ← List.map_append,
    ← insertionSort_append hbelow]
  exact congrArg _ (List.Perm.eq_of_pairwise' (List.pairwise_insertionSort _ _) (List.pairwise_insertionSort _ _)
    ((List.perm_insertionSort _ _).trans (hkeys.trans (List.perm_insertionSort _ _).symm)))

/-- The moved tasks are in their old order exactly if the new keys go with the old ones. -/
theorem columnOrder_moveTasks_eq_iff (hids : (s.tasks.map TaskRow.id).Nodup) (hne : destination ≠ removed) :
    (s.moveTasks sweep removed destination (s.nextPosition destination)).columnOrder board destination =
        s.columnOrder board destination ++ s.columnOrder board removed ↔
      ∀ a ∈ s.shownIn board removed, ∀ b ∈ s.shownIn board removed, manualKey a < manualKey b →
        manualKey (swept s sweep removed destination (s.nextPosition destination) a) ≤
          manualKey (swept s sweep removed destination (s.nextPosition destination) b) := by
  generalize hf : swept s sweep removed destination (s.nextPosition destination) = f
  have hid (row : TaskRow) : keyTask (manualKey (f row)) = row.id := by rw [← hf]; rfl
  let listed := sortByKey manualKey (s.shownIn board removed)
  have hperm : listed.Perm (s.shownIn board removed) := perm_sortByKey manualKey _
  have hnodup : (listed.map TaskRow.id).Nodup :=
    (hperm.map _).nodup_iff.mpr (hids.sublist (List.filter_sublist.map _))
  have hold : s.columnOrder board removed = (listed.map fun row ↦ manualKey (f row)).map keyTask := by
    rw [columnOrder_eq, Store.columnKeys, ← map_sortByKey, List.map_map, List.map_map]
    exact List.map_congr_left fun row _ ↦ (hid row).symm
  have hnew : ((s.shownIn board removed).map fun row ↦ manualKey (f row)).insertionSort (· ≤ ·) =
      (listed.map fun row ↦ manualKey (f row)).insertionSort (· ≤ ·) :=
    List.Perm.eq_of_pairwise' (List.pairwise_insertionSort _ _) (List.pairwise_insertionSort _ _)
      ((List.perm_insertionSort _ _).trans ((hperm.symm.map _).trans (List.perm_insertionSort _ _).symm))
  have hnames : ((listed.map fun row ↦ manualKey (f row)).map keyTask).Nodup := by
    rw [List.map_map]
    exact (List.map_congr_left fun row _ ↦ hid row : listed.map _ = listed.map TaskRow.id) ▸ hnodup
  have hstrict : listed.Pairwise fun a b ↦ manualKey a < manualKey b := by
    refine ((pairwise_sortByKey manualKey _).and (List.pairwise_map.mp hnodup)).imp fun {a b} h ↦ h.1.lt_of_ne ?_
    exact fun heq ↦ h.2 (congrArg keyTask heq)
  rw [columnOrder_moveTasks hne, hf, List.append_cancel_left_eq, hold, hnew, map_insertionSort_eq_map_iff hnames,
    List.pairwise_map, pairwise_iff_of_pairwise_lt hstrict]
  simp only [hperm.mem_iff]

/-- The promise, for one order in which the rows are visited. -/
theorem appended_moveTasks_iff (hids : (s.tasks.map TaskRow.id).Nodup) (hne : destination ≠ removed) {s' : Store}
    (htables : s' = { s.moveTasks sweep removed destination (s.nextPosition destination) with boards := s'.boards }) :
    Appended board removed destination s s' ↔
      (∀ a ∈ s.shownIn board removed, ∀ b ∈ s.shownIn board removed, manualKey a < manualKey b →
        manualKey (swept s sweep removed destination (s.nextPosition destination) a) ≤
          manualKey (swept s sweep removed destination (s.nextPosition destination) b)) ∧
      ∀ row ∈ s.tasks, row.columnId = removed →
        s.nextPosition destination + (crowd s sweep removed row : ℤ) * 10 < 2 ^ 63 := by
  have hrow (id : TaskId) : s'.taskRow id = (s.taskRow id).map fun row ↦ if row.columnId = removed then
      swept s sweep removed destination (s.nextPosition destination) row else row := by
    rw [htables]
    exact taskRow_moveTasks id
  have horder : s'.columnOrder board destination =
      (s.moveTasks sweep removed destination (s.nextPosition destination)).columnOrder board destination := by
    rw [columnOrder_eq, columnOrder_eq, htables]
    rfl
  have hfind : ∀ row ∈ s.tasks, s.taskRow row.id = some row := fun row hmem ↦ (Keyed.find?_eq_some_iff hids).mpr ⟨hmem, rfl⟩
  rw [← columnOrder_moveTasks_eq_iff hids hne, ← horder]
  constructor
  · rintro ⟨hsame, -, hstored⟩
    refine ⟨hsame, fun row hmem hremoved ↦ ?_⟩
    refine hstored row hmem hremoved (swept s sweep removed destination (s.nextPosition destination) row) ?_
    rw [hrow, hfind row hmem, Option.map_some, if_pos hremoved]
  · rintro ⟨hsame, hroom⟩
    refine ⟨hsame, fun id task htask ↦ ?_, fun row hmem hremoved moved hmoved ↦ ?_⟩
    · obtain ⟨row, hfound, rfl⟩ := Option.map_eq_some_iff.mp htask
      refine ⟨_, congrArg (Option.map s'.hydrate) ((hrow id).trans (congrArg _ hfound)), ?_⟩
      rw [htables]
      dsimp only
      split_ifs <;> rfl
    · rw [hrow, hfind row hmem, Option.map_some, if_pos hremoved, Option.some.injEq] at hmoved
      rw [← hmoved]
      exact hroom row hmem hremoved

end Update

/-! ### Every order of the rows -/

section Sweeps

variable {s : Store} {board : BoardId} {removed destination : ColumnId}

/-- One number first, another one last, and all others between them. -/
def outerRank (top first last n : ℕ) : ℕ := if n = first then 0 else if n = last then top + 2 else n + 1

theorem outerRank_inj {top first last n m : ℕ} (hn : n ≤ top) (hm : m ≤ top)
    (h : outerRank top first last n = outerRank top first last m) : n = m := by
  unfold outerRank at h
  split_ifs at h <;> omega

theorem outerRank_lt {top first last n : ℕ} (hn : n ≤ top) (hne : n ≠ last) :
    outerRank top first last n < top + 2 := by
  unfold outerRank
  split_ifs <;> omega

theorem outerRank_last {top first last : ℕ} (hne : first ≠ last) : outerRank top first last last = top + 2 := by
  rw [outerRank, if_neg hne.symm, if_pos rfl]

/-- One row is visited first and another one last, and what is rewritten is seen. -/
def firstAndLast (s : Store) (first last : TaskId) : Sweep where
  rank := outerRank (s.tasks.map TaskRow.id).sum first last
  seesMoved := true

theorem visits_firstAndLast (hids : (s.tasks.map TaskRow.id).Nodup) (first last : TaskId) :
    (firstAndLast s first last).Visits s := by
  have hbound : ∀ row ∈ s.tasks, row.id ≤ (s.tasks.map TaskRow.id).sum :=
    fun row hrow ↦ List.le_sum_of_mem (List.mem_map_of_mem hrow)
  refine (List.nodup_map_iff_inj_on (List.Nodup.of_map _ hids)).mpr fun a ha b hb hrank ↦ ?_
  exact List.inj_on_of_nodup_map hids ha hb (outerRank_inj (hbound a ha) (hbound b hb) hrank)

/-- Nothing is counted for a row below which there is nothing. -/
theorem crowd_eq_zero {sweep : Sweep} {row : TaskRow}
    (hlowest : ∀ other ∈ s.tasks, other.columnId = removed → row.position ≤ other.position) :
    crowd s sweep removed row = 0 := by
  refine List.countP_eq_zero.mpr fun other hother hcounted ↦ ?_
  simp only [Bool.and_eq_true, beq_iff_eq, decide_eq_true_eq] at hcounted
  have := hlowest other hother hcounted.1.1
  omega

/-- Nothing is counted for the row that is visited last, and everything below it for the first. -/
theorem crowd_firstAndLast (removed : ColumnId) (hids : (s.tasks.map TaskRow.id).Nodup) {a b : TaskRow}
    (hb : b ∈ s.tasks) (hne : a.id ≠ b.id) :
    crowd s (firstAndLast s a.id b.id) removed b = 0 ∧
      crowd s (firstAndLast s a.id b.id) removed a =
        s.tasks.countP fun other ↦ other.columnId == removed && decide (other.position < a.position) := by
  constructor
  · refine List.countP_eq_zero.mpr fun other hother hcounted ↦ ?_
    simp only [Bool.and_eq_true, beq_iff_eq, decide_eq_true_eq, Bool.not_eq_true', firstAndLast, Bool.true_and,
      decide_eq_false_iff_not, outerRank_last hne] at hcounted
    by_cases hsame : other.id = b.id
    · rw [List.inj_on_of_nodup_map hids hother hb hsame] at hcounted
      exact lt_irrefl _ hcounted.1.2
    · exact hcounted.2 (outerRank_lt (List.le_sum_of_mem (List.mem_map_of_mem hother)) hsame)
  · refine List.countP_congr fun other _ ↦ ?_
    simp [firstAndLast, outerRank]

theorem manualKey_swept_le_iff {sweep : Sweep} {base : ℤ} {a b : TaskRow} :
    manualKey (swept s sweep removed destination base a) ≤ manualKey (swept s sweep removed destination base b) ↔
      crowd s sweep removed a < crowd s sweep removed b ∨
        crowd s sweep removed a = crowd s sweep removed b ∧ a.id ≤ b.id := by
  rw [Prod.Lex.le_iff]
  change base + (crowd s sweep removed a : ℤ) * 10 < base + (crowd s sweep removed b : ℤ) * 10 ∨
    base + (crowd s sweep removed a : ℤ) * 10 = base + (crowd s sweep removed b : ℤ) * 10 ∧ a.id ≤ b.id ↔ _
  refine or_congr ?_ (and_congr_left fun _ ↦ ?_)
  · omega
  · omega

/-- For every order of the rows, the rewritten ones seen or not. -/
theorem forall_sweep_iff (hids : (s.tasks.map TaskRow.id).Nodup) :
    (∀ sweep : Sweep, sweep.Visits s →
      (∀ a ∈ s.shownIn board removed, ∀ b ∈ s.shownIn board removed, manualKey a < manualKey b →
        manualKey (swept s sweep removed destination (s.nextPosition destination) a) ≤
          manualKey (swept s sweep removed destination (s.nextPosition destination) b)) ∧
      ∀ row ∈ s.tasks, row.columnId = removed →
        s.nextPosition destination + (crowd s sweep removed row : ℤ) * 10 < 2 ^ 63) ↔
      LowestFirst s board removed ∧ RoomBehind s removed destination := by
  constructor
  · intro hall
    refine ⟨fun a ha b hb hlt ↦ ?_, fun row hrow hremoved ↦ ?_⟩
    · have hmema := (List.mem_filter.mp ha).1
      have hmemb := (List.mem_filter.mp hb).1
      have hne : a.id ≠ b.id := by
        intro heq
        rw [List.inj_on_of_nodup_map hids hmema hmemb heq] at hlt
        exact lt_irrefl _ hlt
      obtain ⟨hlast, hfirst⟩ := crowd_firstAndLast removed hids hmemb hne
      have hkeys := (hall _ (visits_firstAndLast hids a.id b.id)).1 a ha b hb hlt
      rw [manualKey_swept_le_iff, hlast, hfirst] at hkeys
      rcases hkeys with hneg | ⟨hzero, hle⟩
      · omega
      · refine ⟨lt_of_le_of_ne hle hne, fun row hrow hremoved ↦ ?_⟩
        have hnone := List.countP_eq_zero.mp hzero row hrow
        simp only [hremoved, beq_self_eq_true, Bool.true_and, decide_eq_true_eq] at hnone
        omega
    · have hblind := (hall ⟨id, false⟩ (by simpa [Sweep.Visits] using hids)).2 row hrow hremoved
      simpa [crowd] using hblind
  · rintro ⟨hlowest, hroom⟩ sweep -
    refine ⟨fun a ha b hb hlt ↦ ?_, fun row hrow hremoved ↦ ?_⟩
    · obtain ⟨hid, hbelow⟩ := hlowest a ha b hb hlt
      rw [manualKey_swept_le_iff, crowd_eq_zero hbelow]
      rcases Nat.eq_zero_or_pos (crowd s sweep removed b) with hzero | hpos
      · exact .inr ⟨hzero.symm, hid.le⟩
      · exact .inl hpos
    · have hcount : crowd s sweep removed row ≤
          s.tasks.countP fun other ↦ other.columnId == removed && decide (other.position < row.position) := by
        refine List.countP_mono_left fun other _ hcounted ↦ ?_
        exact (Bool.and_eq_true _ _ |>.mp hcounted).1
      have := hroom row hrow hremoved
      omega

/-- What a removal leaves behind, and when it goes through. -/
theorem removeColumn_eq_ok_iff {outside : Outside} {board : Board} {plan : ColumnRemoval} {s' : Store}
    (hplan : plan.moveTasksTo = some destination) (hne : destination ≠ plan.removed) :
    removeColumn outside board plan s = .ok ((), s') ↔
      s.nextPosition destination < 2 ^ 63 ∧
        (s.hasColumn destination || s.tasks.all fun row ↦ row.columnId != plan.removed) = true ∧
        s' = { s.moveTasks outside.sweep plan.removed destination (s.nextPosition destination) with
          boards := s'.boards } ∧
        s'.boards = (s.modifyBoard board.id (setRoles plan.reassignRoles)).boards.map fun b ↦
          { b with columns := b.columns.filter fun c ↦ c.id != plan.removed } := by
  have hempty : (s.moveTasks outside.sweep plan.removed destination (s.nextPosition destination)).tasks.all
      (fun row ↦ row.columnId != plan.removed) = true := by
    rw [tasks_moveTasks, List.all_map, List.all_eq_true]
    intro row _
    rw [Function.comp_apply, bne_iff_ne]
    split_ifs with hremoved
    · exact hne
    · exact hremoved
  have hgone (boards : List Board) :
      (!({ s.moveTasks outside.sweep plan.removed destination (s.nextPosition destination) with boards }).hasColumn
          plan.removed ||
        ({ s.moveTasks outside.sweep plan.removed destination (s.nextPosition destination) with boards }).tasks.all
          fun row ↦ row.columnId != plan.removed) = true := by
    rw [Bool.or_eq_true]
    exact .inr hempty
  simp only [removeColumn, hplan, moveColumnTasks, nextPosition, Tx.bind_eq_ok, Tx.read_eq_ok, Tx.check_eq_ok,
    Tx.pure_eq_ok, Tx.write_eq_ok, demand_eq_ok]
  constructor
  · rintro ⟨_, _, ⟨_, _, ⟨_, _, hread, _, _, ⟨hroom, hsame⟩, hbase⟩, _, _, ⟨hcolumn, hdemand⟩, hmoved⟩, _, _, hroles,
      _, _, ⟨-, hstill⟩, hresult⟩
    cases hread
    cases hsame
    cases hbase
    cases hdemand
    cases hmoved
    cases hroles
    cases hstill
    cases hresult
    exact ⟨hroom, hcolumn, rfl, rfl⟩
  · rintro ⟨hroom, hcolumn, htables, hboards⟩
    refine ⟨_, _, ⟨_, _, ⟨_, _, rfl, _, _, ⟨hroom, rfl⟩, rfl⟩, _, _, ⟨hcolumn, rfl⟩, rfl⟩, _, _, rfl, _, _,
      ⟨hgone _, rfl⟩, ?_⟩
    rw [htables, hboards]
    rfl

/-- For every column that can be removed, in whatever order the database visits the rows and whether or not it sees
those it has rewritten: the tasks are appended in their order exactly if every live one that has another behind it is
at the lowest position of the column with the smaller id, and there is room behind the destination. -/
theorem removeColumn_appends_iff {outside : Outside} {board : Board} {plan : ColumnRemoval} {s₀ : Store}
    (hids : (s.tasks.map TaskRow.id).Nodup) (hplan : plan.moveTasksTo = some destination)
    (hne : destination ≠ plan.removed) (hrun : removeColumn outside board plan s = .ok ((), s₀)) :
    (∀ sweep : Sweep, sweep.Visits s → ∀ s', removeColumn { outside with sweep } board plan s = .ok ((), s') →
      Appended board.id plan.removed destination s s') ↔
      LowestFirst s board.id plan.removed ∧ RoomBehind s plan.removed destination := by
  obtain ⟨hroom, hcolumn, -, -⟩ := (removeColumn_eq_ok_iff hplan hne).mp hrun
  rw [← forall_sweep_iff hids]
  refine forall₂_congr fun sweep _ ↦ ⟨fun h ↦ ?_, fun h s' hs' ↦ ?_⟩
  · let swept : Store := s.moveTasks sweep plan.removed destination (s.nextPosition destination)
    let boards := (s.modifyBoard board.id (setRoles plan.reassignRoles)).boards.map fun b ↦
      { b with columns := b.columns.filter fun c ↦ c.id != plan.removed }
    have hafter := h { swept with boards } ((removeColumn_eq_ok_iff hplan hne).mpr ⟨hroom, hcolumn, rfl, rfl⟩)
    exact (appended_moveTasks_iff hids hne rfl).mp hafter
  · obtain ⟨-, -, htables, -⟩ := (removeColumn_eq_ok_iff hplan hne).mp hs'
    exact (appended_moveTasks_iff hids hne htables).mpr h

end Sweeps

/-! ### Three tasks in the first column -/

instance decidableLowestFirst (s : Store) (board : BoardId) (removed : ColumnId) :
    Decidable (LowestFirst s board removed) := inferInstanceAs (Decidable (∀ _ ∈ _, _))

instance decidableRoomBehind (s : Store) (removed destination : ColumnId) : Decidable (RoomBehind s removed destination) :=
  inferInstanceAs (Decidable (∀ _ ∈ _, _))

/-- Three tasks, oldest first, at these positions. -/
def firstColumn (positions : List ℤ) : Store :=
  { Store.empty with
    boards := [boardWithMembers 1 [1]]
    tasks := positions.zipIdx.map fun (position, n) ↦
      newTaskRow (n + 1) (.fromIndex n) position (boardWithMembers 1 [1]) 1 TaskDraft.default 1 none 0 }

/-- The first column goes, and its tasks go to the second one. -/
def firstToSecond : ColumnRemoval := ⟨1, some 2, []⟩

/-- What the removal leaves behind when the rows are visited by their ids and the rewritten ones are seen. -/
def withoutFirst (s : Store) : Store :=
  match removeColumn { Outside.still 0 with sweep := ⟨id, true⟩ } (boardWithMembers 1 [1]) firstToSecond s with
  | .ok (_, s') => s'
  | .error _ => s

theorem twoTasks_appended :
    LowestFirst (firstColumn [0, 10]) 1 1 ∧ ∀ sweep : Sweep, sweep.Visits (firstColumn [0, 10]) → ∀ s',
      removeColumn { Outside.still 0 with sweep } (boardWithMembers 1 [1]) firstToSecond (firstColumn [0, 10]) =
        .ok ((), s') → Appended 1 1 2 (firstColumn [0, 10]) s' :=
  have hrun : removeColumn { Outside.still 0 with sweep := ⟨id, true⟩ } (boardWithMembers 1 [1]) firstToSecond
      (firstColumn [0, 10]) = .ok ((), withoutFirst (firstColumn [0, 10])) := rfl
  ⟨by decide +kernel, (removeColumn_appends_iff (by decide) rfl (by decide) hrun).mpr
    ⟨by decide +kernel, by decide +kernel⟩⟩

/-- The second of three tasks was put on top. Visited by their ids with the rewritten rows seen, the first one comes
behind the third. -/
theorem raised_loses_order :
    Sweep.Visits ⟨id, true⟩ (firstColumn [10, 0, 20]) ∧
      removeColumn { Outside.still 0 with sweep := ⟨id, true⟩ } (boardWithMembers 1 [1]) firstToSecond
        (firstColumn [10, 0, 20]) = .ok ((), withoutFirst (firstColumn [10, 0, 20])) ∧
      ¬ Appended 1 1 2 (firstColumn [10, 0, 20]) (withoutFirst (firstColumn [10, 0, 20])) := by
  refine ⟨by decide, rfl, fun happended ↦ ?_⟩
  have hbefore : (firstColumn [10, 0, 20]).columnOrder 1 1 = [2, 1, 3] ∧ (firstColumn [10, 0, 20]).columnOrder 1 2 = [] := by
    decide +kernel
  have hafter : (withoutFirst (firstColumn [10, 0, 20])).columnOrder 1 2 = [2, 3, 1] := by decide +kernel
  have horder := happended.order
  rw [hbefore.1, hbefore.2, hafter] at horder
  exact absurd horder (by decide)

end Taskologic.Daemon
