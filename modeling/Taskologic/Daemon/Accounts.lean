import Taskologic.Daemon.Changes

/-!
# Every section keeps to what it may do

For each query the chain of changes it makes, from the elementary writes up, and from these what the updates
are made of. What the engine does for a run is in `EngineAccounts`.
-/

set_option autoImplicit false
set_option relaxedAutoImplicit false

namespace Taskologic.Daemon

open Taskologic.Core Taskologic.Library

variable {allowed : Effect → Prop}

/-! ### Elementary writes -/

theorem chain_aside (haside : allowed .aside) {f : Store → Store} (hf : ∀ s, Aside s (f s)) :
    Tx.Within (Chain allowed) (Tx.write f : Work Unit) :=
  .write fun s ↦ .single (.aside (hf s)) haside

theorem chain_recordEvent (haside : allowed .aside) (board : BoardId) (task : Option TaskId)
    (actor : Option Uid) (kind : EventKind) (now : Instant) :
    Tx.Within (Chain allowed) (recordEvent board task actor kind now) :=
  chain_aside haside fun _ ↦ rfl

/-- Changing the rows of one task beside its column and dates. -/
theorem change_modifyTask (s : Store) (task : TaskId) {f : TaskRow → TaskRow}
    (hid : ∀ row, (f row).id = row.id) (hboard : ∀ row, (f row).boardId = row.boardId)
    (hcolumn : ∀ row, (f row).columnId = row.columnId)
    (hdates : ∀ row, (f row).startAt = row.startAt ∧ (f row).dueAt = row.dueAt) :
    Change .editTasks s (s.modifyTask task f) := by
  refine .editTasks _ ?_ ?_ ?_ ?_ <;> intro row <;> split_ifs
  · exact hid row
  · rfl
  · exact hboard row
  · rfl
  · exact hcolumn row
  · rfl
  · exact hdates row
  · exact ⟨rfl, rfl⟩

theorem chain_modifyTask (hedit : allowed .editTasks) (task : TaskId) {f : TaskRow → TaskRow}
    (hid : ∀ row, (f row).id = row.id) (hboard : ∀ row, (f row).boardId = row.boardId)
    (hcolumn : ∀ row, (f row).columnId = row.columnId)
    (hdates : ∀ row, (f row).startAt = row.startAt ∧ (f row).dueAt = row.dueAt) :
    Tx.Within (Chain allowed) (Tx.write fun s ↦ s.modifyTask task f : Work Unit) :=
  .write fun s ↦ .single (change_modifyTask s task hid hboard hcolumn hdates) hedit

/-- Changing a board beside its roles and the columns it has. -/
theorem change_modifyBoard (s : Store) (board : BoardId) {f : Board → Board}
    (hid : ∀ b, (f b).id = b.id) (hroles : ∀ b role, (f b).columnFor role = b.columnFor role)
    (hcolumns : ∀ b column, (f b).hasColumn column = b.hasColumn column) :
    Change .editBoards s (s.modifyBoard board f) := by
  refine .editBoards _ ?_ ?_ ?_
  · intro b
    split_ifs
    · exact hid b
    · rfl
  · intro b role
    split_ifs
    · exact hroles b role
    · rfl
  · intro b column
    split_ifs
    · exact hcolumns b column
    · rfl

theorem chain_modifyBoard (hedit : allowed .editBoards) (board : BoardId) {f : Board → Board}
    (hid : ∀ b, (f b).id = b.id) (hroles : ∀ b role, (f b).columnFor role = b.columnFor role)
    (hcolumns : ∀ b column, (f b).hasColumn column = b.hasColumn column) :
    Tx.Within (Chain allowed) (Tx.write fun s ↦ s.modifyBoard board f : Work Unit) :=
  .write fun s ↦ .single (change_modifyBoard s board hid hroles hcolumns) hedit

/-! ### Boards -/

theorem hasColumn_eq_any (board : Board) (column : ColumnId) :
    board.hasColumn column = board.columns.any fun c ↦ c.id == column := by
  rw [Bool.eq_iff_iff, Board.hasColumn, Board.column, List.find?_isSome]
  simp [List.any_eq_true]

theorem mem_sortColumns {columns : List Column} {c : Column} : c ∈ sortColumns columns ↔ c ∈ columns :=
  (List.perm_insertionSort _ columns).mem_iff

theorem any_sortColumns (columns : List Column) (p : Column → Bool) :
    (sortColumns columns).any p = columns.any p := by
  rw [Bool.eq_iff_iff]
  simp [List.any_eq_true, mem_sortColumns]

theorem chain_addMember (hedit : allowed .editBoards) (board : BoardId) (uid : Uid) :
    Tx.Within (Chain allowed) (addMember board uid) :=
  chain_modifyBoard hedit board (fun _ ↦ rfl) (fun _ role ↦ by cases role <;> rfl) fun _ _ ↦ rfl

theorem chain_removeMember (hedit : allowed .editBoards) (board : BoardId) (uid : Uid) :
    Tx.Within (Chain allowed) (removeMember board uid) :=
  chain_modifyBoard hedit board (fun _ ↦ rfl) (fun _ role ↦ by cases role <;> rfl) fun _ _ ↦ rfl

/-- Changing one column, wherever it is, beside its id. -/
theorem change_modifyColumn (s : Store) (column : ColumnId) {f : Column → Column}
    (hf : ∀ c, (f c).id = c.id) : Change .editBoards s (modifyColumn column f s) := by
  refine .editBoards _ (fun _ ↦ rfl) (fun _ role ↦ by cases role <;> rfl) fun b other ↦ ?_
  rw [hasColumn_eq_any, hasColumn_eq_any, any_sortColumns, List.any_map]
  congr 1
  funext c
  rw [Function.comp_apply]
  split_ifs
  · rw [hf]
  · rfl

theorem chain_renameColumn (hedit : allowed .editBoards) (board : Board) (column : ColumnId)
    (name : Text) : Tx.Within (Chain allowed) (renameColumn board column name) :=
  .bind (.lift _) fun _ ↦ .write fun s ↦ .single (change_modifyColumn s column fun _ ↦ rfl) hedit

theorem chain_setColumnSort (hedit : allowed .editBoards) (column : ColumnId) (sortByDue : Bool) :
    Tx.Within (Chain allowed) (setColumnSort column sortByDue) :=
  .write fun s ↦ .single (change_modifyColumn s column fun _ ↦ rfl) hedit

theorem chain_reorderColumns (hedit : allowed .editBoards) (board : Board) (order : List ColumnId) :
    Tx.Within (Chain allowed) (reorderColumns board order) := by
  refine .bind (.check _ _) fun _ ↦ .write fun s ↦ ?_
  generalize order.zipIdx = entries
  induction entries generalizing s with
  | nil => exact .refl
  | cons entry rest ih =>
    obtain ⟨column, index⟩ := entry
    have hone := change_modifyColumn s column (f := fun c ↦ { c with position := index * 10 })
      fun _ ↦ rfl
    exact (Chain.single hone hedit).trans (ih _)

theorem chain_createBoard (haside : allowed .aside) (hadd : allowed .addBoard) (outside : Outside)
    (owner : Uid) (req : CreateBoard) :
    Tx.Within (Chain allowed) (createBoard outside owner req) := by
  intro s board s' h
  simp only [createBoard, Tx.bind_eq_ok, Tx.lift_eq_ok, Tx.check_eq_ok, Tx.read_eq_ok,
    Tx.require_eq_ok, Tx.write_eq_ok, Prod.mk.injEq, recordEvent_eq_ok, requireBoard_eq_ok] at h
  obtain ⟨_, _, ⟨_, _, _, rfl⟩, _, _, ⟨_, _, _, rfl⟩, _, _, ⟨_, _, rfl⟩, _, _, ⟨_, _, rfl⟩, _, _,
    ⟨_, _, rfl⟩, _, _, ⟨_, _, rfl⟩, _, _, ⟨_, _, rfl⟩, _, _, ⟨rfl, rfl⟩, shortId, _,
    ⟨_, _, rfl, rfl⟩, _, _, ⟨rfl, rfl⟩, _, _, ⟨_, rfl⟩, _, _, ⟨_, rfl⟩, _, _, rfl, rfl⟩ := h
  refine Chain.trans (.single (.addBoard _ req.columns.length rfl ?_) hadd)
    (.single (.aside rfl) haside)
  rintro c hc
  obtain ⟨⟨name, index⟩, hmem, rfl⟩ := List.mem_map.mp hc
  have hindex := List.snd_lt_of_mem_zipIdx hmem
  exact ⟨Nat.le_add_right _ _, Nat.add_lt_add_left hindex _⟩

theorem setRoles_hasColumn (roles : List (ColumnRole × ColumnId)) (b : Board) (column : ColumnId) :
    (setRoles roles b).hasColumn column = b.hasColumn column := by
  have hcolumns : (setRoles roles b).columns = b.columns := by
    unfold setRoles
    induction roles generalizing b with
    | nil => rfl
    | cons pair rest ih =>
      obtain ⟨role, column⟩ := pair
      rw [List.foldl_cons, ih]
      cases role <;> rfl
  rw [hasColumn_eq_any, hasColumn_eq_any, hcolumns]

theorem setRoles_id (roles : List (ColumnRole × ColumnId)) (b : Board) :
    (setRoles roles b).id = b.id := by
  unfold setRoles
  induction roles generalizing b with
  | nil => rfl
  | cons pair rest ih =>
    obtain ⟨role, column⟩ := pair
    rw [List.foldl_cons, ih]
    cases role <;> rfl

/-- Two changes of a board, one after the other. -/
theorem modifyBoard_modifyBoard (s : Store) (board : BoardId) {f g : Board → Board}
    (hid : ∀ b, (f b).id = b.id) :
    (s.modifyBoard board f).modifyBoard board g = s.modifyBoard board fun b ↦ g (f b) := by
  simp only [Store.modifyBoard, List.map_map]
  congr 1
  refine List.map_congr_left fun b _ ↦ ?_
  simp only [Function.comp_apply]
  split_ifs with hb hb'
  · rfl
  · exact absurd (hid b ▸ hb) hb'
  · rfl

/-- The fields of a board first, then its roles. -/
theorem chain_updateBoard (hedit : allowed .editBoards) (board : Board) (req : UpdateBoard)
    (hroles : allowed (.setRoles board.id req.roles)) :
    Tx.Within (Chain allowed) (updateBoard board req) := by
  have hwrite : Tx.Within (Chain allowed)
      (Tx.write fun s ↦ s.modifyBoard board.id fun b ↦ setRoles req.roles (req.fields b) : Work Unit) := by
    refine .write fun s ↦ ?_
    rw [← modifyBoard_modifyBoard s board.id (f := req.fields) fun _ ↦ rfl]
    have hfields := change_modifyBoard s board.id (f := req.fields) (fun _ ↦ rfl)
      (fun _ role ↦ by cases role <;> rfl) fun _ _ ↦ rfl
    exact (Chain.single hfields hedit).trans (.single (.setRoles board.id req.roles) hroles)
  have hrest := Tx.Within.bind (R := Chain allowed) (Tx.Within.check (∀ v ∈ req.archiveAfterSecs, 0 ≤ v)
    (AppError.ofBoard .negativeArchiveDelay)) fun _ ↦
      Tx.Within.bind (Tx.Within.check (∀ v ∈ req.purgeDeletedAfterSecs, 0 ≤ v)
        (AppError.ofBoard .negativePurgeDelay)) fun _ ↦
          Tx.Within.bind (Tx.Within.lift (checkAll (fun role ↦
            ensure (board.hasColumn role.2) (AppError.ofBoard (.columnNotOnBoard role.2))) req.roles))
              fun _ ↦ Tx.Within.bind hwrite fun _ ↦ (reads_requireBoard board.id).within
  unfold updateBoard
  cases req.name with
  | some name => exact .bind (.lift _) fun _ ↦ hrest
  | none => exact hrest

theorem chain_saveBoard (haside : allowed .aside) (hedit : allowed .editBoards) (outside : Outside)
    (actor : Uid) (before : Board) (req : UpdateBoard)
    (hroles : allowed (.setRoles before.id req.roles)) :
    Tx.Within (Chain allowed) (saveBoard outside actor before req) := by
  refine .bind (chain_updateBoard hedit before req hroles) fun after ↦ ?_
  have hrest := Tx.Within.bind (R := Chain allowed) (chain_recordEvent haside after.id none actor
    .boardSettingsChanged outside.now) fun _ ↦ (reads_requireBoard after.id).within
  refine .ite (fun _ ↦ ?_) fun _ ↦ hrest
  refine .bind (.read _) fun _ ↦ .bind (.each fun uid _ ↦ ?_) fun _ ↦ hrest
  exact .bind (chain_addMember hedit _ _) fun _ ↦ chain_recordEvent haside _ _ _ _ _

theorem chain_removeBoard (haside : allowed .aside) (board : BoardId)
    (hdrop : allowed (.dropBoard board)) (outside : Outside) (actor : Uid) :
    Tx.Within (Chain allowed) (removeBoard outside actor board) :=
  .bind (chain_recordEvent haside _ _ _ _ _) fun _ ↦ .bind (reads_demand _ _).within fun _ ↦
    .write fun _ ↦ .single (.dropBoard board) hdrop

theorem chain_addColumn (board : Board) (hadd : allowed (.addColumn board.id)) (name : Text) :
    Tx.Within (Chain allowed) (addColumn board name) := by
  intro s column s' h
  simp only [addColumn, Tx.bind_eq_ok, Tx.lift_eq_ok, demand_eq_ok, Tx.read_eq_ok, Tx.write_eq_ok,
    Tx.pure_eq_ok, Prod.mk.injEq] at h
  obtain ⟨_, _, ⟨_, _, _, rfl⟩, _, _, ⟨_, _, rfl⟩, _, _, ⟨rfl, rfl⟩, _, _, ⟨_, rfl⟩, _, rfl⟩ := h
  refine .single (.addColumn board.id _ (fun _ ↦ rfl) (fun _ role ↦ by cases role <;> rfl) ?_) hadd
  intro b other
  rw [hasColumn_eq_any, hasColumn_eq_any, any_sortColumns, List.any_append]
  simp [Bool.beq_comm]

theorem chain_moveColumnTasks (sweep : Sweep) (removed : ColumnId) (destination : Option ColumnId)
    (hshift : ∀ column, destination = some column → allowed (.shift removed column)) :
    Tx.Within (Chain allowed) (moveColumnTasks sweep removed destination) := by
  cases destination with
  | none => exact .pure _
  | some column =>
    exact .bind (reads_nextPosition _).within fun _ ↦ .bind (reads_demand _ _).within fun _ ↦
      .write fun _ ↦ .single (.shift sweep removed column _) (hshift column rfl)

theorem chain_removeColumn (outside : Outside) (board : Board) (plan : ColumnRemoval)
    (hshift : ∀ column, plan.moveTasksTo = some column → allowed (.shift plan.removed column))
    (hroles : allowed (.setRoles board.id plan.reassignRoles))
    (hcut : allowed (.cutColumn plan.removed)) :
    Tx.Within (Chain allowed) (removeColumn outside board plan) :=
  .bind (chain_moveColumnTasks _ _ _ hshift) fun _ ↦
    .bind (.write fun _ ↦ .single (.setRoles _ _) hroles) fun _ ↦
      .bind (reads_demand _ _).within fun _ ↦ .write fun _ ↦ .single (.cutColumn _) hcut

theorem chain_unassignOnBoard (haside : allowed .aside) (hedit : allowed .editTasks) (board : BoardId)
    (uid : Uid) : Tx.Within (Chain allowed) (unassignOnBoard board uid) := by
  refine .bind (.read _) fun tasks ↦ .bind (.write fun s ↦ ?_) fun _ ↦ .pure _
  have hbump : Change .editTasks s { s with tasks := s.tasks.map fun row ↦
      if row.id ∈ tasks then { row with version := row.version + 1 } else row } := by
    refine .editTasks _ ?_ ?_ ?_ ?_ <;> intro row <;> split_ifs
    all_goals first | rfl | exact ⟨rfl, rfl⟩
  exact (Chain.single hbump hedit).trans
    (.single (.aside rfl) haside)

/-! ### Tasks -/

theorem aside_setRepeat (haside : allowed .aside) (outside : Outside) (task : TaskId)
    (spec : Option RepeatSpec) : Tx.Within (Chain allowed) (setRepeat outside task spec) := by
  cases spec with
  | none => exact chain_aside haside fun _ ↦ rfl
  | some spec =>
    exact .bind (.lift _) fun _ ↦
      chain_aside haside fun _ ↦ rfl

theorem chain_writeRelations (haside : allowed .aside) (outside : Outside) (task : TaskId)
    (draft : TaskDraft) : Tx.Within (Chain allowed) (writeRelations outside task draft) :=
  .bind (reads_demand _ _).within fun _ ↦
    .bind (chain_aside haside fun _ ↦ rfl) fun _ ↦
      .bind (reads_demand _ _).within fun _ ↦
        .bind (chain_aside haside fun _ ↦ rfl) fun _ ↦
          aside_setRepeat haside _ _ _

/-- The relations of a task are beside what the labels are about. -/
theorem aside_writeRelations {outside : Outside} {task : TaskId} {draft : TaskDraft} {s s' : Store} {r : Unit}
    (h : writeRelations outside task draft s = .ok (r, s')) : Aside s s' := by
  have hwritten : Tx.Within (Chain fun effect ↦ effect = .aside) (writeRelations outside task draft) := by
    apply chain_writeRelations
    rfl
  exact (hwritten _ _ _ h).toAside

/-- What a task that was made is found to be. -/
theorem createTask_spec {outside : Outside} {board : Board} {column : ColumnId} {draft : TaskDraft}
    {creator : Uid} {fromTemplate : Option TemplateId} {s s' : Store} {task : Task}
    (h : createTask outside board column draft creator fromTemplate s = .ok (task, s')) :
    ∃ row, row.id = s.nextTask ∧ row.columnId = column ∧ row.boardId = board.id ∧
      s.hasColumn column = true ∧ Aside (s.insertTask row) s' ∧ s'.task row.id = some task := by
  simp only [createTask, Tx.bind_eq_ok, Tx.lift_eq_ok, Tx.read_eq_ok, Tx.require_eq_ok, demand_eq_ok,
    Tx.write_eq_ok, Prod.mk.injEq, recordEvent_eq_ok, requireTask_eq_ok] at h
  obtain ⟨_, _, ⟨_, _, _, rfl⟩, id, _, ⟨rfl, rfl⟩, _, _, ⟨rfl, rfl⟩, _, _, ⟨shortId, _, rfl, rfl⟩,
    position, _, hposition, _, _, ⟨hthere, _, rfl⟩, _, _, ⟨_, rfl⟩, _, _, hrelations, _, _, ⟨_, rfl⟩, _,
    hfound, rfl, rfl⟩ := h
  obtain rfl := reads_nextPosition _ _ _ _ hposition
  simp only [Bool.and_eq_true] at hthere
  have hbeside := aside_writeRelations hrelations
  refine ⟨newTaskRow s.nextTask shortId position board column draft creator fromTemplate outside.now,
    rfl, rfl, rfl, hthere.1, ?_, hfound⟩
  exact hbeside

theorem chain_createTask (haside : allowed .aside) (hadd : allowed .addTask) (outside : Outside)
    (board : Board) (column : ColumnId) (draft : TaskDraft) (creator : Uid)
    (fromTemplate : Option TemplateId) :
    Tx.Within (Chain allowed) (createTask outside board column draft creator fromTemplate) := by
  intro s task s' h
  obtain ⟨row, hid, -, -, -, hbeside, -⟩ := createTask_spec h
  exact (Chain.single (.addTask row hid) hadd).trans (.single (.aside hbeside) haside)

theorem reads_movedPosition (task : Task) (plan : MovePlan) (position : Option ℤ) :
    Tx.Reads (movedPosition task plan position) := by
  cases position with
  | some position => exact .pure _
  | none => exact .ite (fun _ ↦ .pure _) fun _ ↦ reads_nextPosition _

/-- The row of a task after a move. -/
def movedRow (plan : MovePlan) (position : ℤ) (row : TaskRow) : TaskRow :=
  { row with
    columnId := plan.destination
    position
    finishedAt := plan.finishedAt
    version := row.version + 1 }

/-- What a move does: the row, and a line in the log. -/
theorem applyMove_spec {outside : Outside} {task moved : Task} {plan : MovePlan}
    {position : Option ℤ} {s s' : Store} (h : applyMove outside task plan position s = .ok (moved, s')) :
    ∃ p, s.hasColumn plan.destination = true ∧
      Aside (s.modifyTask task.id (movedRow plan p)) s' ∧ s'.task task.id = some moved := by
  rw [applyMove, Tx.bind_eq_ok] at h
  obtain ⟨p, _, hposition, h⟩ := h
  obtain rfl := reads_movedPosition _ _ _ _ _ _ hposition
  simp only [Tx.bind_eq_ok, demand_eq_ok, Tx.write_eq_ok, Prod.mk.injEq] at h
  obtain ⟨_, _, ⟨hthere, _, rfl⟩, _, _, ⟨_, rfl⟩, h⟩ := h
  refine ⟨p, hthere, ?_⟩
  split_ifs at h <;>
    simp only [Tx.bind_eq_ok, recordEvent_eq_ok, Prod.mk.injEq, requireTask_eq_ok] at h
  · obtain ⟨_, _, ⟨_, rfl⟩, _, hfound, rfl, rfl⟩ := h
    exact ⟨rfl, hfound⟩
  · obtain ⟨_, hfound, rfl, rfl⟩ := h
    exact ⟨rfl, hfound⟩

theorem chain_applyMove (haside : allowed .aside) (task : Task) (plan : MovePlan)
    (hplace : allowed (.place task.id plan.destination)) (outside : Outside) (position : Option ℤ) :
    Tx.Within (Chain allowed) (applyMove outside task plan position) := by
  intro s moved s' h
  obtain ⟨p, -, hbeside, -⟩ := applyMove_spec h
  exact (Chain.single (.place task.id plan.destination (movedRow plan p) (fun _ ↦ rfl) (fun _ ↦ rfl)
    (fun _ ↦ rfl) fun _ ↦ ⟨rfl, rfl⟩) hplace).trans (.single (.aside hbeside) haside)

theorem chain_updateTask (haside : allowed .aside) (task : Task) (hsave : allowed (.save task.id))
    (outside : Outside) (draft : TaskDraft) :
    Tx.Within (Chain allowed) (updateTask outside task draft) :=
  .bind (.write fun _ ↦ .single (.save task.id (savedRow draft) (fun _ ↦ rfl) (fun _ ↦ rfl)
    fun _ ↦ rfl) hsave) fun _ ↦
      .bind (chain_writeRelations haside _ _ _) fun _ ↦ (reads_requireTask _).within

theorem chain_setChecklistItem (hedit : allowed .editTasks) (task : Task) (index : ℕ) (done : Bool) :
    Tx.Within (Chain allowed) (setChecklistItem task index done) :=
  .bind (.check _ _) fun _ ↦ .bind (chain_modifyTask hedit _ (fun _ ↦ rfl) (fun _ ↦ rfl) (fun _ ↦ rfl)
    fun _ ↦ ⟨rfl, rfl⟩) fun _ ↦ (reads_requireTask _).within

theorem chain_softDeleteTask (haside : allowed .aside) (hedit : allowed .editTasks)
    (outside : Outside) (task : Task) : Tx.Within (Chain allowed) (softDeleteTask outside task) :=
  .bind (chain_modifyTask hedit _ (fun _ ↦ rfl) (fun _ ↦ rfl) (fun _ ↦ rfl) fun _ ↦ ⟨rfl, rfl⟩)
    fun _ ↦ .bind (chain_aside haside fun _ ↦ rfl) fun _ ↦
      (reads_requireTask _).within

theorem chain_archiveTask (hedit : allowed .editTasks) (now : Instant) (task : Task) :
    Tx.Within (Chain allowed) (archiveTask now task) :=
  .bind (chain_modifyTask hedit _ (fun _ ↦ rfl) (fun _ ↦ rfl) (fun _ ↦ rfl) fun _ ↦ ⟨rfl, rfl⟩)
    fun _ ↦ (reads_requireTask _).within

theorem chain_restoreTask (haside : allowed .aside) (task : Task) (destination : ColumnId)
    (hplace : allowed (.place task.id destination)) (outside : Outside) :
    Tx.Within (Chain allowed) (restoreTask outside task destination) :=
  .bind (reads_nextPosition _).within fun _ ↦ .bind (reads_demand _ _).within fun _ ↦
    .bind (.write fun _ ↦ .single (.place task.id destination _ (fun _ ↦ rfl) (fun _ ↦ rfl)
      (fun _ ↦ rfl) fun _ ↦ ⟨rfl, rfl⟩) hplace) fun _ ↦
        .bind (chain_aside haside fun _ ↦ rfl) fun _ ↦
          (reads_requireTask _).within

theorem chain_setExcludeFromStats (hedit : allowed .editTasks) (task : TaskId) (excluded : Bool) :
    Tx.Within (Chain allowed) (setExcludeFromStats task excluded) :=
  .bind (chain_modifyTask hedit _ (fun _ ↦ rfl) (fun _ ↦ rfl) (fun _ ↦ rfl) fun _ ↦ ⟨rfl, rfl⟩)
    fun _ ↦ (reads_requireTask _).within

theorem chain_advanceRepeat (haside : allowed .aside) (task : TaskId) (next : Option Instant) :
    Tx.Within (Chain allowed) (advanceRepeat task next) := by
  cases next <;> exact chain_aside haside fun _ ↦ rfl

theorem chain_stopRepeat (haside : allowed .aside) (hedit : allowed .editTasks) (task : Task) :
    Tx.Within (Chain allowed) (stopRepeat task) := by
  refine .bind (.write fun s ↦ ?_) fun _ ↦ (reads_requireTask _).within
  have hforget : Aside s (s.setRepeat task.id none) := rfl
  exact (Chain.single (.aside hforget) haside).trans (.single (change_modifyTask _ _ (fun _ ↦ rfl)
    (fun _ ↦ rfl) (fun _ ↦ rfl) fun _ ↦ ⟨rfl, rfl⟩) hedit)

theorem reads_changedRoot (run : Run) (create : List Creation) : Tx.Reads (changedRoot run create) :=
  .ite (fun _ ↦ .bind (reads_requireTask _) fun _ ↦ .pure _) fun _ ↦ .pure _

/-! ### Templates and programs -/

theorem reads_templateInput (board : Board) (id : TemplateId) (name : Text) (draft : TaskDraft)
    (options : TemplateOptions) : Tx.Reads (templateInput board id name draft options) := by
  refine .bind (.check _ _) fun _ ↦ .bind (.check _ _) fun _ ↦ .bind (.read _) fun templates ↦
    .bind (.lift _) fun _ ↦ ?_
  cases firstCycle (templateEdges templates) id options.depTemplates with
  | some dep => exact .fail _
  | none => exact .bind (.lift _) fun _ ↦ .bind (reads_checkPrintRecipients _) fun _ ↦ .pure _

theorem chain_makeTemplate (haside : allowed .aside) (outside : Outside) (actor : Uid) (board : Board)
    (name : Text) (draft : TaskDraft) (options : TemplateOptions) :
    Tx.Within (Chain allowed) (makeTemplate outside actor board name draft options) := by
  refine .bind (reads_templateInput _ _ _ _ _).within fun pair ↦ .bind ?_ fun _ ↦
    .bind (chain_recordEvent haside _ _ _ _ _) fun _ ↦ .pure _
  exact .bind (.read _) fun _ ↦ .bind (.read _) fun _ ↦ .bind (.require _ _) fun _ ↦
    .bind (reads_demand _ _).within fun _ ↦
      .bind (chain_aside haside fun _ ↦ rfl) fun _ ↦
        (reads_requireTemplate _).within

theorem chain_saveTemplate (haside : allowed .aside) (outside : Outside) (actor : Uid) (board : Board)
    (template : TemplateId) (name : Text) (draft : TaskDraft) (options : TemplateOptions) :
    Tx.Within (Chain allowed) (saveTemplate outside actor board template name draft options) := by
  refine .bind (reads_templateInput _ _ _ _ _).within fun pair ↦ .bind ?_ fun _ ↦
    .bind (chain_recordEvent haside _ _ _ _ _) fun _ ↦ .pure _
  exact .bind (chain_aside haside fun _ ↦ rfl) fun _ ↦
    (reads_requireTemplate _).within

theorem chain_dropTemplate (haside : allowed .aside) (outside : Outside) (actor : Uid) (board : Board)
    (template : TemplateId) : Tx.Within (Chain allowed) (dropTemplate outside actor board template) :=
  .bind (chain_recordEvent haside _ _ _ _ _) fun _ ↦
    chain_aside haside fun _ ↦ rfl

theorem chain_makeProgram (haside : allowed .aside) (outside : Outside) (actor : Uid) (board : Board)
    (draft : ProgramDraft) : Tx.Within (Chain allowed) (makeProgram outside actor board draft) := by
  refine .bind (reads_checkProgram _ _).within fun _ ↦ .bind ?_ fun _ ↦
    .bind (chain_recordEvent haside _ _ _ _ _) fun _ ↦ .pure _
  exact .bind (.read _) fun _ ↦ .bind (.read _) fun _ ↦ .bind (.require _ _) fun _ ↦
    .bind (reads_demand _ _).within fun _ ↦
      .bind (chain_aside haside fun _ ↦ rfl) fun _ ↦
        (reads_requireProgram _).within

theorem chain_saveProgram (haside : allowed .aside) (outside : Outside) (actor : Uid) (board : Board)
    (program : ProgramId) (draft : ProgramDraft) :
    Tx.Within (Chain allowed) (saveProgram outside actor board program draft) := by
  refine .bind (reads_checkProgram _ _).within fun _ ↦ .bind ?_ fun _ ↦
    .bind (chain_recordEvent haside _ _ _ _ _) fun _ ↦ .pure _
  exact .bind (chain_aside haside fun _ ↦ rfl) fun _ ↦
    (reads_requireProgram _).within

theorem chain_dropProgram (haside : allowed .aside) (hedit : allowed .editRuns) (outside : Outside)
    (actor : Uid) (board : Board) (program : ProgramId) :
    Tx.Within (Chain allowed) (dropProgram outside actor board program) := by
  refine .bind (chain_recordEvent haside _ _ _ _ _) fun _ ↦ .write fun s ↦ ?_
  have hforget : Aside s { s with programs := s.programs.filter fun p ↦ p.id != program } := rfl
  exact (Chain.single (.aside hforget) haside).trans
    (.single (.editRuns fun id ↦ id.filter fun p ↦ p != program) hedit)

end Taskologic.Daemon
