import Taskologic.Daemon.RunColumns

/-!
# Where tasks are

A task is on a board and in a column, a run is on a board, has a root and makes its tasks in a column, and a link says
that a task is one of a run's. `Places` is what a store says about this and nothing else. Which column belongs to which
board is a relation `home` here. `Tidy` says that every task is in a column that is there and at home on the task's own
board, and that a run, its root and the tasks it has made are on one board.

The parts of the engine keep it (`tidy_carryOut`, `tidy_afterMove`, `tidy_start`): a run makes its tasks in its own
column and on the board of the task the event is about, which is the run's own.
-/

set_option autoImplicit false
set_option relaxedAutoImplicit false

namespace Taskologic.Daemon

open Taskologic.Core Taskologic.Library

/-! ### Places -/

structure TaskPlace where
  id : TaskId
  boardId : BoardId
  columnId : ColumnId

structure LinkPlace where
  taskId : TaskId
  run : RunId

structure RunPlace where
  id : RunId
  boardId : BoardId
  columnId : ColumnId
  rootTask : TaskId

def taskPlace (row : TaskRow) : TaskPlace := ⟨row.id, row.boardId, row.columnId⟩

def linkPlace (link : TaskLink) : LinkPlace := ⟨link.taskId, link.run⟩

def runPlace (run : Run) : RunPlace := ⟨run.id, run.boardId, run.columnId, run.rootTask⟩

/-- The part of a store that says where tasks are. -/
structure Places where
  boards : List Board
  tasks : List TaskPlace
  links : List LinkPlace
  runs : List RunPlace
  nextTask : TaskId
  nextRun : RunId

def Store.places (s : Store) : Places where
  boards := s.boards
  tasks := s.tasks.map taskPlace
  links := s.links.map linkPlace
  runs := s.runs.map runPlace
  nextTask := s.nextTask
  nextRun := s.nextRun

/-- Every task is in a column of its board, as far as `home` says, and a run is on one board with its root and the tasks
it has made. -/
structure Tidy (home : BoardId → ColumnId → Prop) (p : Places) : Prop where
  roles : ∀ b ∈ p.boards, ∀ role, home b.id (b.columnFor role)
  taskHome : ∀ e ∈ p.tasks, home e.boardId e.columnId
  taskColumn : ∀ e ∈ p.tasks, ∃ b ∈ p.boards, b.hasColumn e.columnId = true
  taskOld : ∀ e ∈ p.tasks, e.id < p.nextTask
  runHome : ∀ r ∈ p.runs, home r.boardId r.columnId
  runRoot : ∀ r ∈ p.runs, ∃ e ∈ p.tasks, e.id = r.rootTask
  runBoard : ∀ r ∈ p.runs, ∀ e ∈ p.tasks, e.id = r.rootTask → e.boardId = r.boardId
  runOld : ∀ r ∈ p.runs, r.id < p.nextRun
  linkTask : ∀ l ∈ p.links, ∃ e ∈ p.tasks, e.id = l.taskId
  linkRun : ∀ l ∈ p.links, ∃ r ∈ p.runs, r.id = l.run
  linkBoard : ∀ l ∈ p.links, ∀ e ∈ p.tasks, ∀ r ∈ p.runs, e.id = l.taskId → r.id = l.run → e.boardId = r.boardId

namespace Places

variable (p : Places)

def addTask (board : BoardId) (column : ColumnId) : Places :=
  { p with tasks := p.tasks ++ [⟨p.nextTask, board, column⟩], nextTask := p.nextTask + 1 }

def putTask (id : TaskId) (column : ColumnId) : Places :=
  { p with tasks := p.tasks.map fun e ↦ if e.id = id then { e with columnId := column } else e }

def addLink (task : TaskId) (run : RunId) : Places := { p with links := p.links ++ [⟨task, run⟩] }

def addRun (board : BoardId) (column : ColumnId) (root : TaskId) : Places :=
  { p with runs := p.runs ++ [⟨p.nextRun, board, column, root⟩], nextRun := p.nextRun + 1 }

end Places

namespace Tidy

variable {home : BoardId → ColumnId → Prop} {p : Places}

theorem mono {home' : BoardId → ColumnId → Prop} (h : Tidy home p)
    (hsub : ∀ board column, home board column → home' board column) : Tidy home' p :=
  { h with
    roles := fun b hb role ↦ hsub _ _ (h.roles b hb role)
    taskHome := fun e he ↦ hsub _ _ (h.taskHome e he)
    runHome := fun r hr ↦ hsub _ _ (h.runHome r hr) }

/-- Boards change, and no column goes that has tasks. -/
theorem withBoards (h : Tidy home p) {boards : List Board} (hroles : ∀ b ∈ boards, ∀ role, home b.id (b.columnFor role))
    (hcolumns : ∀ e ∈ p.tasks, ∀ b ∈ p.boards, b.hasColumn e.columnId = true →
      ∃ b' ∈ boards, b'.hasColumn e.columnId = true) : Tidy home { p with boards } :=
  { h with
    roles := hroles
    taskColumn := fun e he ↦ by
      obtain ⟨b, hb, hcolumn⟩ := h.taskColumn e he
      exact hcolumns e he b hb hcolumn }

theorem addTask (h : Tidy home p) {board : BoardId} {column : ColumnId} (hhome : home board column)
    (hthere : ∃ b ∈ p.boards, b.hasColumn column = true) : Tidy home (p.addTask board column) where
  roles := h.roles
  taskHome := List.forall_mem_append.mpr ⟨h.taskHome, List.forall_mem_singleton.mpr hhome⟩
  taskColumn := List.forall_mem_append.mpr ⟨h.taskColumn, List.forall_mem_singleton.mpr hthere⟩
  taskOld := List.forall_mem_append.mpr
    ⟨fun e he ↦ Nat.lt_succ_of_lt (h.taskOld e he), List.forall_mem_singleton.mpr (Nat.lt_succ_self _)⟩
  runHome := h.runHome
  runRoot r hr := by
    obtain ⟨e, he, hid⟩ := h.runRoot r hr
    exact ⟨e, List.mem_append_left _ he, hid⟩
  runBoard r hr := by
    refine List.forall_mem_append.mpr ⟨h.runBoard r hr, List.forall_mem_singleton.mpr fun hid ↦ ?_⟩
    obtain ⟨e, he, hroot⟩ := h.runRoot r hr
    exact absurd (h.taskOld e he) (by rw [hroot, ← hid]; exact Nat.lt_irrefl _)
  runOld := h.runOld
  linkTask l hl := by
    obtain ⟨e, he, hid⟩ := h.linkTask l hl
    exact ⟨e, List.mem_append_left _ he, hid⟩
  linkRun := h.linkRun
  linkBoard l hl := by
    refine List.forall_mem_append.mpr ⟨h.linkBoard l hl, List.forall_mem_singleton.mpr fun r _ hid _ ↦ ?_⟩
    obtain ⟨e, he, hlinked⟩ := h.linkTask l hl
    exact absurd (h.taskOld e he) (by rw [hlinked, ← hid]; exact Nat.lt_irrefl _)

/-- Tasks change their columns. -/
theorem mapTasks (h : Tidy home p) {f : TaskPlace → TaskPlace} (hid : ∀ e, (f e).id = e.id)
    (hboard : ∀ e, (f e).boardId = e.boardId) (hhome : ∀ e ∈ p.tasks, home e.boardId (f e).columnId)
    (hthere : ∀ e ∈ p.tasks, ∃ b ∈ p.boards, b.hasColumn (f e).columnId = true) :
    Tidy home { p with tasks := p.tasks.map f } where
  roles := h.roles
  taskHome := List.forall_mem_map.mpr fun e he ↦ hboard e ▸ hhome e he
  taskColumn := List.forall_mem_map.mpr hthere
  taskOld := List.forall_mem_map.mpr fun e he ↦ hid e ▸ h.taskOld e he
  runHome := h.runHome
  runRoot r hr := by
    obtain ⟨e, he, hroot⟩ := h.runRoot r hr
    exact ⟨f e, List.mem_map_of_mem he, (hid e).trans hroot⟩
  runBoard r hr := List.forall_mem_map.mpr fun e he hroot ↦
    (hboard e).trans (h.runBoard r hr e he ((hid e).symm.trans hroot))
  runOld := h.runOld
  linkTask l hl := by
    obtain ⟨e, he, hlinked⟩ := h.linkTask l hl
    exact ⟨f e, List.mem_map_of_mem he, (hid e).trans hlinked⟩
  linkRun := h.linkRun
  linkBoard l hl := List.forall_mem_map.mpr fun e he r hr hlinked hrun ↦
    (hboard e).trans (h.linkBoard l hl e he r hr ((hid e).symm.trans hlinked) hrun)

/-- Some tasks are put into one column. -/
theorem putWhere (h : Tidy home p) {q : TaskPlace → Prop} [DecidablePred q] {column : ColumnId}
    (hhome : ∀ e ∈ p.tasks, q e → home e.boardId column)
    (hthere : ∀ e ∈ p.tasks, q e → ∃ b ∈ p.boards, b.hasColumn column = true) :
    Tidy home { p with tasks := p.tasks.map fun e ↦ if q e then { e with columnId := column } else e } := by
  refine h.mapTasks (fun e ↦ ?_) (fun e ↦ ?_) (fun e he ↦ ?_) fun e he ↦ ?_ <;> split_ifs with hput
  · rfl
  · rfl
  · rfl
  · rfl
  · exact hhome e he hput
  · exact h.taskHome e he
  · exact hthere e he hput
  · exact h.taskColumn e he

theorem putTask (h : Tidy home p) {id : TaskId} {column : ColumnId}
    (hhome : ∀ e ∈ p.tasks, e.id = id → home e.boardId column) (hthere : ∃ b ∈ p.boards, b.hasColumn column = true) :
    Tidy home (p.putTask id column) := h.putWhere hhome fun _ _ _ ↦ hthere

theorem addLink (h : Tidy home p) {task : TaskId} {run : RunId} (htask : ∃ e ∈ p.tasks, e.id = task)
    (hrun : ∃ r ∈ p.runs, r.id = run)
    (hboard : ∀ e ∈ p.tasks, ∀ r ∈ p.runs, e.id = task → r.id = run → e.boardId = r.boardId) :
    Tidy home (p.addLink task run) :=
  { h with
    linkTask := List.forall_mem_append.mpr ⟨h.linkTask, List.forall_mem_singleton.mpr htask⟩
    linkRun := List.forall_mem_append.mpr ⟨h.linkRun, List.forall_mem_singleton.mpr hrun⟩
    linkBoard := List.forall_mem_append.mpr ⟨h.linkBoard, List.forall_mem_singleton.mpr hboard⟩ }

theorem addRun (h : Tidy home p) {board : BoardId} {column : ColumnId} {root : TaskId} (hhome : home board column)
    (hroot : ∃ e ∈ p.tasks, e.id = root) (hboard : ∀ e ∈ p.tasks, e.id = root → e.boardId = board) :
    Tidy home (p.addRun board column root) :=
  { h with
    runHome := List.forall_mem_append.mpr ⟨h.runHome, List.forall_mem_singleton.mpr hhome⟩
    runRoot := List.forall_mem_append.mpr ⟨h.runRoot, List.forall_mem_singleton.mpr hroot⟩
    runBoard := List.forall_mem_append.mpr ⟨h.runBoard, List.forall_mem_singleton.mpr hboard⟩
    runOld := List.forall_mem_append.mpr
      ⟨fun r hr ↦ Nat.lt_succ_of_lt (h.runOld r hr), List.forall_mem_singleton.mpr (Nat.lt_succ_self _)⟩
    linkRun := fun l hl ↦ by
      obtain ⟨r, hr, hid⟩ := h.linkRun l hl
      exact ⟨r, List.mem_append_left _ hr, hid⟩
    linkBoard := fun l hl e he ↦ by
      refine List.forall_mem_append.mpr ⟨h.linkBoard l hl e he, List.forall_mem_singleton.mpr fun _ hid ↦ ?_⟩
      obtain ⟨r, hr, hrun⟩ := h.linkRun l hl
      exact absurd (h.runOld r hr) (by rw [hrun, ← hid]; exact Nat.lt_irrefl _) }

/-- Tasks go, with the runs they are roots of and with their links, and runs go with their links. -/
theorem without (h : Tidy home p) {tasks : List TaskPlace} {links : List LinkPlace} {runs : List RunPlace}
    (htasks : tasks ⊆ p.tasks) (hlinks : links ⊆ p.links) (hruns : runs ⊆ p.runs)
    (hroot : ∀ r ∈ runs, ∀ e ∈ p.tasks, e.id = r.rootTask → e ∈ tasks)
    (hlinked : ∀ l ∈ links, ∀ e ∈ p.tasks, e.id = l.taskId → e ∈ tasks)
    (hmade : ∀ l ∈ links, ∀ r ∈ p.runs, r.id = l.run → r ∈ runs) :
    Tidy home { p with tasks, links, runs } where
  roles := h.roles
  taskHome e he := h.taskHome e (htasks he)
  taskColumn e he := h.taskColumn e (htasks he)
  taskOld e he := h.taskOld e (htasks he)
  runHome r hr := h.runHome r (hruns hr)
  runRoot r hr := by
    obtain ⟨e, he, hid⟩ := h.runRoot r (hruns hr)
    exact ⟨e, hroot r hr e he hid, hid⟩
  runBoard r hr e he := h.runBoard r (hruns hr) e (htasks he)
  runOld r hr := h.runOld r (hruns hr)
  linkTask l hl := by
    obtain ⟨e, he, hid⟩ := h.linkTask l (hlinks hl)
    exact ⟨e, hlinked l hl e he hid, hid⟩
  linkRun l hl := by
    obtain ⟨r, hr, hid⟩ := h.linkRun l (hlinks hl)
    exact ⟨r, hmade l hl r hr hid, hid⟩
  linkBoard l hl e he r hr := h.linkBoard l (hlinks hl) e (htasks he) r (hruns hr)

end Tidy

/-! ### What leaves every task where it is -/

/-- Whatever is done, everything is where it was. -/
abbrev StaysPut {α : Type} (work : Work α) : Prop := Tx.Within (Tx.Keeps Store.places) work

section StaysPut

variable {s s' : Store} {run : Run}

theorem places_of_aside (h : Aside s s') : s'.places = s.places := by
  rw [Store.places, h.boards, h.tasks, h.links, h.runs, h.nextTask, h.nextRun]
  rfl

/-- Rows that are changed and keep what is said of their places. -/
theorem map_ite_eq {α β : Type} {entries : List α} {p : α → Prop} [DecidablePred p] {f : α → α} {place : α → β}
    (hf : ∀ a, place (f a) = place a) : (entries.map fun a ↦ if p a then f a else a).map place = entries.map place := by
  rw [List.map_map]
  refine List.map_congr_left fun a _ ↦ ?_
  rw [Function.comp_apply]
  split_ifs
  · exact hf a
  · rfl

theorem places_modifyTask (task : TaskId) {f : TaskRow → TaskRow} (hf : ∀ row, taskPlace (f row) = taskPlace row) :
    (s.modifyTask task f).places = s.places :=
  congrArg (fun tasks ↦ { s.places with tasks }) (map_ite_eq hf)

theorem places_modifyLink (task : TaskId) {f : TaskLink → TaskLink} (hf : ∀ link, linkPlace (f link) = linkPlace link) :
    (s.modifyLink task f).places = s.places :=
  congrArg (fun links ↦ { s.places with links }) (map_ite_eq hf)

theorem places_modifyRun (id : RunId) {f : Run → Run} (hf : ∀ run, runPlace (f run) = runPlace run) :
    (s.modifyRun id f).places = s.places :=
  congrArg (fun runs ↦ { s.places with runs }) (map_ite_eq hf)

theorem stays_write {f : Store → Store} (hf : ∀ s, (f s).places = s.places) : StaysPut (Tx.write f : Work Unit) :=
  .write hf

theorem stays_recordEvent (board : BoardId) (task : Option TaskId) (actor : Option Uid) (kind : EventKind)
    (now : Instant) : StaysPut (recordEvent board task actor kind now) := stays_write fun _ ↦ rfl

theorem stays_addDep (task dep : TaskId) : StaysPut (addDep task dep) :=
  .bind (reads_demand _ _).within fun _ ↦ stays_write fun s ↦
    places_modifyTask (s := { s with deps := insertNew s.deps (task, dep) }) task fun _ ↦ rfl

theorem stays_printSheets (board : Board) (create : List Creation) (created : List Task) :
    StaysPut (printSheets board run create created) := by
  intro s prints s' h
  have hchain : Chain (fun effect ↦ effect = .aside) s s' := by
    refine chain_printSheets ?_ board create created _ _ _ h
    rfl
  exact places_of_aside hchain.toAside

theorem stays_dateTask (outside : Outside) (board : Board) (id : TaskId) : StaysPut (dateTask outside board id) := by
  refine .bind (reads_requireTask _).within fun task ↦ .ite (fun _ ↦ ?_) fun _ ↦ .pure _
  refine .bind (.bind (stays_write fun s ↦ ?_) fun _ ↦ (reads_requireTask _).within) fun _ ↦
    .bind (stays_recordEvent _ _ _ _ _) fun _ ↦ .pure _
  exact places_modifyTask _ fun _ ↦ rfl

/-- A question or an answer, and the row is bumped. -/
theorem stays_settle (task : TaskId) {f : TaskLink → TaskLink} (hf : ∀ link, linkPlace (f link) = linkPlace link) :
    StaysPut (Tx.write fun s ↦ (s.modifyLink task f).bumpVersion task : Work Unit) :=
  stays_write fun s ↦ (places_modifyTask (f := fun row ↦ { row with version := row.version + 1 }) task
    fun _ ↦ rfl).trans (places_modifyLink (s := s) task hf)

theorem stays_askQuestion (ask : Option TaskId) : StaysPut (askQuestion ask) := by
  cases ask with
  | none => exact .pure _
  | some task =>
    exact .bind (stays_settle task fun _ ↦ rfl) fun _ ↦ .bind (reads_requireTask _).within fun _ ↦ .pure _

theorem stays_recordAnswer (outside : Outside) (board : Board) (answered : Option (TaskId × Text)) :
    StaysPut (recordAnswer outside board answered) := by
  cases answered with
  | none => exact .pure _
  | some given =>
    exact .bind (stays_settle given.1 fun _ ↦ rfl) fun _ ↦ .bind (stays_recordEvent _ _ _ _ _) fun _ ↦
      .bind (reads_requireTask _).within fun _ ↦ .pure _

theorem stays_writeDue (outside : Outside) (board : Board) (task : Task) (due : Option (Option Instant)) :
    StaysPut (writeDue outside board task due) := by
  cases due with
  | none => exact .pure _
  | some due =>
    refine .bind (.bind (stays_write fun s ↦ ?_) fun _ ↦ (reads_requireTask _).within) fun _ ↦
      .bind (stays_recordEvent _ _ _ _ _) fun _ ↦ .pure _
    exact places_modifyTask _ fun _ ↦ rfl

theorem stays_noteMove (outside : Outside) (actor : Option Uid) (board : Board) (task : TaskId) (plan : MovePlan) :
    StaysPut (noteMove outside actor board task plan) := fun _ _ _ h ↦ places_of_aside (aside_noteMove h)

theorem stays_startRun (outside : Outside) (id : RunId) : StaysPut (startRun outside id) :=
  stays_write fun _ ↦ by
    apply places_modifyRun
    exact fun _ ↦ rfl

theorem stays_finishRun (outside : Outside) (id : RunId) : StaysPut (finishRun outside id) :=
  stays_write fun _ ↦ by
    apply places_modifyRun
    exact fun _ ↦ rfl

theorem stays_setPausedAt (task : TaskId) (pausedAt : Option Instant) : StaysPut (setPausedAt task pausedAt) :=
  stays_write fun _ ↦ by
    apply places_modifyLink
    exact fun _ ↦ rfl

theorem stays_setSkipped (task : TaskId) (skipped : Bool) : StaysPut (setSkipped task skipped) :=
  stays_write fun _ ↦ by
    apply places_modifyLink
    exact fun _ ↦ rfl

theorem stays_softDeleteTask (outside : Outside) (task : Task) : StaysPut (softDeleteTask outside task) := by
  refine .bind (stays_write fun s ↦ ?_) fun _ ↦ .bind (stays_write fun _ ↦ rfl) fun _ ↦ (reads_requireTask _).within
  exact places_modifyTask _ fun _ ↦ rfl

theorem stays_afterRestore (task : Task) : StaysPut (afterRestore task) :=
  .bind (.read _) fun _ ↦ .ite (fun _ ↦ stays_setSkipped _ _) fun _ ↦ .pure _

end StaysPut

/-! ### What puts a task somewhere -/

section Puts

variable {outside : Outside} {board : Board} {s s' : Store} {column : ColumnId}

/-- A task that is found has a place. -/
theorem exists_place_of_task {id : TaskId} {task : Task} (h : s.task id = some task) :
    ∃ e ∈ s.places.tasks, e.id = id := by
  obtain ⟨row, hrow, -⟩ := Option.map_eq_some_iff.mp h
  exact ⟨taskPlace row, List.mem_map_of_mem (List.mem_of_find?_eq_some hrow), Store.id_of_taskRow hrow⟩

theorem places_createTask {draft : TaskDraft} {creator : Uid} {fromTemplate : Option TemplateId} {task : Task}
    (h : createTask outside board column draft creator fromTemplate s = .ok (task, s')) :
    s'.places = s.places.addTask board.id column ∧ (∃ b ∈ s.places.boards, b.hasColumn column = true) ∧
      task.id = s.nextTask := by
  obtain ⟨row, hid, hcolumn, hboard, hthere, hbeside, hfound⟩ := createTask_spec h
  refine ⟨(places_of_aside hbeside).trans ?_, exists_board_of_hasColumn hthere, (Store.id_of_task hfound).trans hid⟩
  rw [Store.places, Store.insertTask, List.map_append, List.map_singleton, taskPlace, hid, hcolumn, hboard]
  rfl

/-- Rows of which some are put into a column. -/
theorem map_taskPlace_put {rows : List TaskRow} {p : TaskRow → Prop} {q : TaskPlace → Prop} [DecidablePred p]
    [DecidablePred q] {f : TaskRow → TaskRow} (hq : ∀ row, q (taskPlace row) ↔ p row)
    (hf : ∀ row, taskPlace (f row) = ⟨row.id, row.boardId, column⟩) :
    (rows.map fun row ↦ if p row then f row else row).map taskPlace =
      (rows.map taskPlace).map fun e ↦ if q e then { e with columnId := column } else e := by
  rw [List.map_map, List.map_map]
  refine List.map_congr_left fun row _ ↦ ?_
  rw [Function.comp_apply, Function.comp_apply]
  by_cases hput : p row
  · rw [if_pos hput, if_pos ((hq row).mpr hput), hf]
    rfl
  · rw [if_neg hput, if_neg (mt (hq row).mp hput)]

/-- The rows of a task that is put into a column. -/
theorem places_put (id : TaskId) {f : TaskRow → TaskRow}
    (hf : ∀ row, taskPlace (f row) = ⟨row.id, row.boardId, column⟩) :
    (s.modifyTask id f).places = s.places.putTask id column :=
  congrArg (fun tasks ↦ { s.places with tasks })
    (map_taskPlace_put (p := fun row ↦ row.id = id) (q := fun e ↦ e.id = id) (fun _ ↦ Iff.rfl) hf)

theorem places_applyMove {task moved : Task} {plan : MovePlan} {position : Option ℤ}
    (h : applyMove outside task plan position s = .ok (moved, s')) :
    s'.places = s.places.putTask task.id plan.destination ∧
      (∃ b ∈ s.places.boards, b.hasColumn plan.destination = true) ∧ moved.id = task.id := by
  obtain ⟨p, hthere, hbeside, hfound⟩ := applyMove_spec h
  exact ⟨(places_of_aside hbeside).trans (places_put task.id fun _ ↦ rfl), exists_board_of_hasColumn hthere,
    Store.id_of_task hfound⟩

theorem places_restoreTask {task restored : Task} (h : restoreTask outside task column s = .ok (restored, s')) :
    s'.places = s.places.putTask task.id column ∧ ∃ b ∈ s.places.boards, b.hasColumn column = true := by
  rw [restoreTask, Tx.bind_eq_ok] at h
  obtain ⟨p, _, hposition, h⟩ := h
  obtain rfl := reads_nextPosition _ _ _ _ hposition
  simp only [Tx.bind_eq_ok, demand_eq_ok, Tx.write_eq_ok, Prod.mk.injEq, requireTask_eq_ok] at h
  obtain ⟨_, _, ⟨hthere, -, rfl⟩, _, _, ⟨-, hback⟩, _, _, ⟨-, rfl⟩, _, -, -, rfl⟩ := h
  refine ⟨Eq.trans ?_ ((congrArg Store.places hback).symm.trans (places_put task.id fun _ ↦ rfl)),
    exists_board_of_hasColumn hthere⟩
  rfl

theorem places_linkTask {link : TaskLink} {r : Unit} (h : linkTask link s = .ok (r, s')) :
    s'.places = s.places.addLink link.taskId link.run := by
  obtain ⟨-, rfl⟩ := linkTask_spec h
  rw [Store.places, List.map_append, List.map_singleton]
  rfl

end Puts

/-! ### A run at work -/

/-- The run is there, everything is tidy, and whatever goes by the run's id is on this board. -/
structure Working (home : BoardId → ColumnId → Prop) (board : BoardId) (run : Run) (p : Places) : Prop where
  tidy : Tidy home p
  stored : runPlace run ∈ p.runs
  same : ∀ r ∈ p.runs, r.id = run.id → r.boardId = board

/-- What holds of the places before holds of them after. -/
abbrev Holds {α : Type} (P : Places → Prop) (work : Work α) : Prop :=
  Tx.Leads (fun s ↦ P s.places) work fun _ s ↦ P s.places

theorem StaysPut.holds {α : Type} {P : Places → Prop} {work : Work α} (h : StaysPut work) : Holds P work :=
  fun s a s' hs hrun ↦ Eq.mpr (congrArg P (h s a s' hrun)) hs

section Engine

variable {home : BoardId → ColumnId → Prop} {outside : Outside} {board : Board} {run : Run} {s s' : Store}

theorem holds_createStep (creation : Creation) :
    Holds (Working home board.id run) (createStep outside board run creation) := by
  intro s made s' hs h
  simp only [createStep, Tx.bind_eq_ok, Tx.require_eq_ok, Prod.mk.injEq] at h
  obtain ⟨step, _, ⟨_, -, rfl, rfl⟩, task, between, hmade, _, linked, hlinked, h⟩ := h
  have hrest := Tx.Within.bind (R := Tx.Keeps Store.places) (reads_requireTask task.id).within fun task ↦
    Tx.Within.pure (creation, task)
  have hend : s'.places = linked.places :=
    Tx.Within.ite (fun _ ↦ .bind (stays_addDep _ _) fun _ ↦ hrest) (fun _ ↦ hrest) _ _ _ h
  obtain ⟨hbetween, hthere, hid⟩ := places_createTask hmade
  rw [hend, places_linkTask hlinked, hbetween]
  have hhome : home board.id run.columnId := hs.same _ hs.stored rfl ▸ hs.tidy.runHome _ hs.stored
  refine ⟨(hs.tidy.addTask hhome hthere).addLink ?_ ⟨_, hs.stored, rfl⟩ ?_, hs.stored, hs.same⟩
  · exact ⟨_, List.mem_append_right _ (List.mem_singleton.mpr rfl), hid.symm⟩
  · refine List.forall_mem_append.mpr ⟨fun e he r _ hnew _ ↦ ?_, List.forall_mem_singleton.mpr fun r hr _ hrun ↦ ?_⟩
    · exact absurd (hs.tidy.taskOld e he) (hnew.trans hid ▸ Nat.lt_irrefl _)
    · exact (hs.same r hr hrun).symm

/-- The root goes into a column of the run's board. -/
theorem holds_finishRoot (hhome : ∀ column, board.hasColumn column = true → home board.id column) :
    Holds (Working home board.id run) (finishRoot outside board run) := by
  intro s moved s' hs h
  rw [finishRoot, Tx.bind_eq_ok] at h
  obtain ⟨root, _, hroot, h⟩ := h
  obtain ⟨_, hfound, hsame⟩ := requireTask_eq_ok.mp hroot
  obtain ⟨rfl, rfl⟩ := Prod.ext_iff.mp hsame
  split_ifs at h with hopen
  · obtain ⟨plan, _, hplan, h⟩ := Tx.bind_eq_ok.mp h
    obtain ⟨_, hplanned, hsame⟩ := Tx.lift_eq_ok.mp hplan
    obtain ⟨rfl, rfl⟩ := Prod.ext_iff.mp hsame
    obtain ⟨_, between, hmove, h⟩ := Tx.bind_eq_ok.mp h
    obtain ⟨_, _, hfinish, h⟩ := Tx.bind_eq_ok.mp h
    obtain ⟨-, rfl⟩ := Prod.ext_iff.mp (Tx.pure_eq_ok.mp h)
    obtain ⟨-, hcolumn, -, rfl⟩ := planMove_eq_ok.mp (mapError_eq_ok.mp hplanned)
    obtain ⟨hbetween, hthere, -⟩ := places_applyMove hmove
    rw [(stays_finishRun outside run.id _ _ _ hfinish).trans hbetween]
    refine ⟨hs.tidy.putTask (fun e he hid ↦ ?_) hthere, hs.stored, hs.same⟩
    have hon : e.boardId = (runPlace run).boardId :=
      hs.tidy.runBoard _ hs.stored e he (hid.trans (Store.id_of_task hfound))
    rw [hon, hs.same _ hs.stored rfl]
    exact hhome _ hcolumn
  · obtain ⟨-, rfl⟩ := Prod.ext_iff.mp (Tx.pure_eq_ok.mp h)
    exact hs

theorem holds_carryOut (hhome : ∀ column, board.hasColumn column = true → home board.id column) (plan : Plan) :
    Holds (Working home board.id run) (carryOut outside board run plan) := by
  intro s effects s' hs h
  obtain ⟨made, s₁, prints, s₂, dated, s₃, asked, s₄, answered, s₅, finished, s₆, hmade, hprints, hdated, hasked,
    hanswered, hfinished, rfl⟩ := carryOut_eq_ok h
  have hone := Tx.Leads.each (fun creation _ ↦ holds_createStep creation) _ _ _ hs hmade
  have htwo := (stays_printSheets board _ _).holds _ _ _ hone hprints
  have hthree := Tx.Leads.each (fun id _ ↦ (stays_dateTask outside board id).holds) _ _ _ htwo hdated
  have hfour := (stays_askQuestion _).holds _ _ _ hthree hasked
  have hfive := (stays_recordAnswer outside board _).holds _ _ _ hfour hanswered
  have hsix : Working home board.id run s₆.places := by
    split_ifs at hfinished
    · exact holds_finishRoot hhome _ _ _ hfive hfinished
    · obtain ⟨-, rfl⟩ := Prod.ext_iff.mp (Tx.pure_eq_ok.mp hfinished)
      exact hfive
  split_ifs
  · exact (stays_finishRun outside run.id).holds _ _ _ hsix rfl
  · exact hsix

theorem holds_apply (hhome : ∀ column, board.hasColumn column = true → home board.id column) (event : RunEvent)
    (tz : Tz) : Holds (Working home board.id run) (apply outside board run event tz) :=
  .bind (StaysPut.holds (stays_write fun _ ↦ rfl)) fun _ ↦ .bind (StaysPut.holds (.read _)) fun plan ↦
    holds_carryOut hhome plan

/-! ### The hooks -/

/-- Everything is tidy, and whatever goes by the id of the task is on this board. -/
structure OnBoard (home : BoardId → ColumnId → Prop) (board : BoardId) (task : TaskId) (p : Places) : Prop where
  tidy : Tidy home p
  same : ∀ e ∈ p.tasks, e.id = task → e.boardId = board

/-- The run of a task is on the board of the task. -/
theorem OnBoard.working {task : TaskId} {link : TaskLink} (h : OnBoard home board.id task s.places)
    (hlink : s.taskLink task = some link) (hrun : s.run link.run = some run) : Working home board.id run s.places := by
  obtain ⟨hmem, rfl⟩ := mem_of_taskLink hlink
  obtain ⟨hstored, hid⟩ := mem_of_run hrun
  have hplace : linkPlace link ∈ s.places.links := List.mem_map_of_mem hmem
  obtain ⟨e, he, hlinked⟩ := h.tidy.linkTask _ hplace
  refine ⟨h.tidy, List.mem_map_of_mem hstored, fun r hr hsame ↦ ?_⟩
  have hboards := h.tidy.linkBoard _ hplace e he r hr hlinked (hsame.trans hid)
  exact hboards.symm.trans (h.same e he hlinked)

theorem tidy_raise (hhome : ∀ column, board.hasColumn column = true → home board.id column) {effects : Effects}
    {event : Option RunEvent} (hs : Working home board.id run s.places)
    (h : raise outside board run.id event s = .ok (effects, s')) : Tidy home s'.places := by
  cases event with
  | none =>
    obtain ⟨-, rfl⟩ := Prod.ext_iff.mp (Tx.pure_eq_ok.mp h)
    exact hs.tidy
  | some event =>
    have hrest {t : Store} (ht : t.places = s.places)
        (hok : (do
          let run ← requireRun run.id
          let tz ← Tx.read fun s : Store ↦ s.starterTz run.startedBy
          Daemon.apply outside board run event tz : Work Effects) t = .ok (effects, s')) : Tidy home s'.places := by
      simp only [Tx.bind_eq_ok, requireRun_eq_ok, Prod.mk.injEq, Tx.read_eq_ok] at hok
      obtain ⟨_, _, ⟨found, hfound, rfl, rfl⟩, _, _, ⟨rfl, rfl⟩, happly⟩ := hok
      obtain ⟨hstored, hid⟩ := mem_of_run hfound
      have hworks : Working home board.id found t.places :=
        ⟨ht ▸ hs.tidy, List.mem_map_of_mem hstored, fun r hr hsame ↦ hs.same r (ht ▸ hr) (hsame.trans hid)⟩
      exact (holds_apply hhome event _ _ _ _ hworks happly).tidy
    simp only [raise] at h
    split_ifs at h with hroot
    · obtain ⟨_, _, hstart, h⟩ := Tx.bind_eq_ok.mp h
      exact hrest (stays_startRun outside run.id _ _ _ hstart) h
    · exact hrest rfl h

theorem tidy_afterMove (hhome : ∀ column, board.hasColumn column = true → home board.id column) {task : Task}
    {plan : MovePlan} {answer : Option Text} {effects : Effects} (hs : OnBoard home board.id task.id s.places)
    (h : afterMove outside board task plan answer s = .ok (effects, s')) : Tidy home s'.places := by
  simp only [afterMove, Tx.bind_eq_ok, Tx.read_eq_ok, Prod.mk.injEq] at h
  obtain ⟨_, _, ⟨rfl, rfl⟩, h⟩ := h
  cases hlink : Store.taskLink _ task.id with
  | none =>
    rw [hlink] at h
    obtain ⟨-, rfl⟩ := Prod.ext_iff.mp (Tx.pure_eq_ok.mp h)
    exact hs.tidy
  | some link =>
    rw [hlink] at h
    simp only [Tx.bind_eq_ok, requireRun_eq_ok, Prod.mk.injEq] at h
    obtain ⟨_, _, ⟨run, hrun, rfl, rfl⟩, h⟩ := h
    have hworks := hs.working hlink hrun
    by_cases hover : run.isActive = false ∨ plan.source = plan.destination
    · rw [if_pos hover] at h
      obtain ⟨-, rfl⟩ := Prod.ext_iff.mp (Tx.pure_eq_ok.mp h)
      exact hs.tidy
    · rw [if_neg hover] at h
      simp only [Tx.bind_eq_ok, Prod.mk.injEq, Tx.pure_eq_ok] at h
      obtain ⟨_, dated, hdated, _, _, hpaused, _, _, hraise, -, rfl⟩ := h
      refine tidy_raise hhome ((stays_setPausedAt _ _).holds _ _ _ ?_ hpaused) hraise
      exact (stays_writeDue outside board task _).holds _ _ _ hworks hdated

theorem tidy_afterDelete (hhome : ∀ column, board.hasColumn column = true → home board.id column) {task : Task}
    {effects : Effects} (hs : OnBoard home board.id task.id s.places)
    (h : afterDelete outside board task s = .ok (effects, s')) : Tidy home s'.places := by
  simp only [afterDelete, Tx.bind_eq_ok, Tx.read_eq_ok, Prod.mk.injEq] at h
  obtain ⟨_, _, ⟨rfl, rfl⟩, h⟩ := h
  cases hlink : Store.taskLink _ task.id with
  | none =>
    rw [hlink] at h
    obtain ⟨-, rfl⟩ := Prod.ext_iff.mp (Tx.pure_eq_ok.mp h)
    exact hs.tidy
  | some link =>
    rw [hlink] at h
    simp only [Tx.bind_eq_ok, requireRun_eq_ok, Prod.mk.injEq] at h
    obtain ⟨_, _, ⟨run, hrun, rfl, rfl⟩, h⟩ := h
    have hworks := hs.working hlink hrun
    split_ifs at h
    · obtain ⟨-, rfl⟩ := Prod.ext_iff.mp (Tx.pure_eq_ok.mp h)
      exact hs.tidy
    · simp only [Tx.bind_eq_ok, Prod.mk.injEq, Tx.read_eq_ok] at h
      obtain ⟨_, _, hskipped, _, _, ⟨rfl, rfl⟩, happly⟩ := h
      exact (holds_apply hhome _ _ _ _ _ ((stays_setSkipped _ _).holds _ _ _ hworks hskipped) happly).tidy

theorem tidy_answerTask (hhome : ∀ column, board.hasColumn column = true → home board.id column) {task : Task}
    {answer : Text} {effects : Effects} (hs : OnBoard home board.id task.id s.places)
    (h : answerTask outside board task answer s = .ok (effects, s')) : Tidy home s'.places := by
  simp only [answerTask, Tx.bind_eq_ok, Tx.read_eq_ok, Tx.require_eq_ok, requireRun_eq_ok, Tx.check_eq_ok,
    Prod.mk.injEq] at h
  obtain ⟨_, _, ⟨rfl, rfl⟩, link, _, ⟨_, hlink, rfl, rfl⟩, _, _, ⟨_, -, rfl, rfl⟩, _, _, ⟨run, hrun, rfl, rfl⟩, _, _,
    ⟨-, -, rfl⟩, _, _, ⟨-, -, rfl⟩, _, _, ⟨canonical, -, rfl, rfl⟩, _, _, ⟨rfl, rfl⟩, happly⟩ := h
  exact (holds_apply hhome _ _ _ _ _ (hs.working (Option.filter_eq_some_iff.mp hlink).1 hrun) happly).tidy

/-! ### What is asked for -/

theorem tidy_createTask {column : ColumnId} {draft : TaskDraft} {creator : Uid} {fromTemplate : Option TemplateId}
    (hhome : home board.id column) :
    Holds (Tidy home) (createTask outside board column draft creator fromTemplate) := by
  intro s task s' hs h
  obtain ⟨hend, hthere, -⟩ := places_createTask h
  exact Eq.mpr (congrArg _ hend) (hs.addTask hhome hthere)

theorem tidy_makeTask {actor : Uid} {column : ColumnId} {draft : TaskDraft} (hhome : home board.id column) :
    Holds (Tidy home) (makeTask outside actor board column draft) :=
  .bind (StaysPut.holds (reads_checkDeps _ _ _).within) fun _ ↦
    .bind (StaysPut.holds (reads_checkPrintRecipients _).within) fun _ ↦ tidy_createTask hhome

theorem tidy_createFromTemplate {actor : Uid} {template : TemplateId} {column : ColumnId} {draft : TaskDraft}
    (hhome : home board.id column) :
    Holds (Tidy home) (createFromTemplate outside actor board template column draft) := by
  have hstamp (anchors : TemplateId → Option Instant) (rootStart : Instant) (id : TemplateId) :
      Holds (Tidy home) (stamp outside actor board column anchors rootStart id) := by
    refine .bind (StaysPut.holds (.read _)) fun found ↦ ?_
    cases found with
    | none => exact StaysPut.holds (.pure _)
    | some template => exact .bind (tidy_createTask hhome) fun _ ↦ StaysPut.holds (.pure _)
  exact .bind (StaysPut.holds (.read _)) fun _ ↦ .bind (.each fun id _ ↦ hstamp _ _ id) fun _ ↦
    .bind (StaysPut.holds (reads_checkDeps _ _ _).within) fun _ ↦
      .bind (StaysPut.holds (reads_checkPrintRecipients _).within) fun _ ↦ tidy_createTask hhome

theorem tidy_spawnRepeat {column : ColumnId} {task : Task} (hhome : home board.id column) :
    Holds (Tidy home) (spawnRepeat outside board column task) := by
  have hadvance : StaysPut (advanceRepeat task.id none) := stays_write fun _ ↦ rfl
  exact .bind (tidy_createTask hhome) fun _ ↦ .bind (stays_recordEvent _ _ _ _ _).holds fun _ ↦
    .bind hadvance.holds fun _ ↦ StaysPut.holds (.pure _)

/-- The start of a run: the root, the run, the link between them, and what is made with the root. -/
theorem tidy_start (hhome : ∀ column, board.hasColumn column = true → home board.id column) {program : Program}
    (hboard : program.boardId = board.id) {starter : User} {column : ColumnId} (hcolumn : board.hasColumn column = true)
    {startAt : Option Instant} {fanOut : List (Text × List Text)} {result : Task × Effects}
    (hs : Tidy home s.places) (h : start outside board program starter column startAt fanOut s = .ok (result, s')) :
    Tidy home s'.places := by
  simp only [start, createRun, Tx.bind_eq_ok, Tx.lift_eq_ok, Tx.require_eq_ok, demand_eq_ok, Tx.read_eq_ok,
    Tx.write_eq_ok, requireRun_eq_ok, Prod.mk.injEq, requireTask_eq_ok, Tx.pure_eq_ok] at h
  obtain ⟨_, _, ⟨_, -, rfl, rfl⟩, _, _, ⟨rootStep, -, rfl, rfl⟩, root, made, hmade, _, _,
    ⟨_, _, ⟨-, -, rfl⟩, _, _, ⟨rfl, rfl⟩, _, begun, ⟨-, hbegun⟩, run, hfound, rfl, rfl⟩, _, linked, hlinked, _, noted,
    hnoted, effects, told, htold, _, _, ⟨_, -, -, rfl⟩, -, rfl⟩ := h
  obtain ⟨hmadePlaces, hthere, hid⟩ := places_createTask hmade
  have hmadeTidy : Tidy home made.places := Eq.mpr (congrArg _ hmadePlaces) (hs.addTask (hhome _ hcolumn) hthere)
  have hroot : ∃ e ∈ made.places.tasks, e.id = root.id := by
    rw [hmadePlaces]
    exact ⟨_, List.mem_append_right _ (List.mem_singleton.mpr rfl), hid.symm⟩
  have hrootBoard : ∀ e ∈ made.places.tasks, e.id = root.id → e.boardId = board.id := by
    rw [hmadePlaces]
    refine List.forall_mem_append.mpr ⟨fun e he hsame ↦ ?_, List.forall_mem_singleton.mpr fun _ ↦ rfl⟩
    exact absurd (hs.taskOld e he) (hsame.trans hid ▸ Nat.lt_irrefl _)
  have hbegunPlaces : begun.places = made.places.addRun board.id column root.id := by
    rw [← hbegun, Store.places, List.map_append, List.map_singleton, runPlace, hboard]
    rfl
  obtain ⟨hstored, hnew⟩ := mem_of_run hfound
  have hworks : Working home board.id run begun.places := by
    refine ⟨?_, List.mem_map_of_mem hstored, ?_⟩ <;> rw [hbegunPlaces]
    · exact hmadeTidy.addRun (hhome _ hcolumn) hroot hrootBoard
    · refine List.forall_mem_append.mpr ⟨fun r hr hsame ↦ ?_, List.forall_mem_singleton.mpr fun _ ↦ rfl⟩
      exact absurd (hmadeTidy.runOld r hr) (hsame.trans hnew ▸ Nat.lt_irrefl _)
  have hlinkedWorks : Working home board.id run linked.places := by
    rw [places_linkTask hlinked]
    refine ⟨hworks.tidy.addLink ?_ ⟨_, hworks.stored, rfl⟩ fun e he r hr hlink hrun ↦ ?_, hworks.stored,
      hworks.same⟩
    · rw [hbegunPlaces]
      exact hroot
    · rw [hbegunPlaces] at he
      exact (hrootBoard e he hlink).trans (hworks.same r hr hrun).symm
  exact (holds_apply hhome _ _ _ _ _ ((stays_recordEvent _ _ _ _ _).holds _ _ _ hlinkedWorks hnoted) htold).tidy

theorem tidy_startProgram (hhome : ∀ column, board.hasColumn column = true → home board.id column) {actor : Uid}
    {program : Program} (hboard : program.boardId = board.id) {column : ColumnId}
    (hcolumn : board.hasColumn column = true) {startAt : Option Instant} {fanOut : List (Text × List Text)} :
    Holds (Tidy home) (startProgram outside actor board program column startAt fanOut) := by
  intro s root s' hs h
  simp only [startProgram, Tx.bind_eq_ok, Prod.exists, Tx.pure_eq_ok, Prod.mk.injEq] at h
  obtain ⟨_, _, hchecked, _, _, hstarter, _, _, _, hstart, -, rfl⟩ := h
  obtain rfl := reads_checkProgram _ _ _ _ _ hchecked
  obtain rfl := reads_requireUser _ _ _ _ hstarter
  exact tidy_start hhome hboard hcolumn hs hstart

theorem tidy_moveTaskBy (hhome : ∀ column, board.hasColumn column = true → home board.id column) {actor : Option Uid}
    {task moved : Task} {destination : ColumnId} {position : Option ℤ} {overrideDeps : Bool} {answer : Option Text}
    (hs : OnBoard home board.id task.id s.places)
    (h : moveTaskBy outside actor board task destination position overrideDeps answer s = .ok (moved, s')) :
    Tidy home s'.places := by
  simp only [moveTaskBy, Tx.bind_eq_ok, Tx.read_eq_ok, Tx.lift_eq_ok, Prod.mk.injEq] at h
  obtain ⟨_, _, ⟨rfl, rfl⟩, _, _, ⟨plan, hplanned, rfl, rfl⟩, loaded, placed, hmove, _, noted, hnote, h⟩ := h
  obtain ⟨-, hcolumn, -, hplan⟩ := planMove_eq_ok.mp (mapError_eq_ok.mp hplanned)
  obtain ⟨hput, hthere, hid⟩ := places_applyMove hmove
  rw [show plan.destination = destination from congrArg MovePlan.destination hplan] at hput hthere
  have hafter (between : Store) (hbetween : between.places = placed.places) :
      OnBoard home board.id loaded.id between.places := by
    rw [hbetween, hput, hid]
    refine ⟨hs.tidy.putTask (fun e he hsame ↦ ?_) hthere, List.forall_mem_map.mpr fun e he hsame ↦ ?_⟩
    · rw [hs.same e he hsame]
      exact hhome _ hcolumn
    · split_ifs at hsame ⊢ <;> exact hs.same e he hsame
  have hnoted := stays_noteMove outside actor board task.id _ _ _ _ hnote
  split_ifs at h <;> simp only [Tx.bind_eq_ok] at h
  · obtain ⟨_, between, hover, effects, _, hhook, hlast⟩ := h
    obtain rfl := reads_requireTask _ _ _ _ hlast
    exact tidy_afterMove hhome (hafter _ ((stays_recordEvent _ _ _ _ _ _ _ _ hover).trans hnoted)) hhook
  · obtain ⟨effects, _, hhook, hlast⟩ := h
    obtain rfl := reads_requireTask _ _ _ _ hlast
    exact tidy_afterMove hhome (hafter _ hnoted) hhook

theorem tidy_deleteTask (hhome : ∀ column, board.hasColumn column = true → home board.id column) {actor : Uid}
    {task deleted : Task} (hs : OnBoard home board.id task.id s.places)
    (h : deleteTask outside actor board task s = .ok (deleted, s')) : Tidy home s'.places := by
  rw [deleteTask, Tx.bind_eq_ok] at h
  obtain ⟨gone, between, hgone, h⟩ := h
  have hid : gone.id = task.id := by
    simp only [softDeleteTask, Tx.bind_eq_ok, Tx.write_eq_ok, Prod.mk.injEq, requireTask_eq_ok] at hgone
    obtain ⟨_, _, ⟨-, rfl⟩, _, _, ⟨-, rfl⟩, _, hfound, rfl, rfl⟩ := hgone
    exact Store.id_of_task hfound
  simp only [Tx.bind_eq_ok, Prod.mk.injEq, Tx.pure_eq_ok] at h
  obtain ⟨_, noted, hnoted, _, _, htold, -, rfl⟩ := h
  refine tidy_afterDelete hhome ?_ htold
  rw [(stays_recordEvent _ _ _ _ _ _ _ _ hnoted).trans (stays_softDeleteTask outside task _ _ _ hgone), hid]
  exact hs

theorem tidy_giveAnswer (hhome : ∀ column, board.hasColumn column = true → home board.id column) {task answered : Task}
    {answer : Text} (hs : OnBoard home board.id task.id s.places)
    (h : giveAnswer outside board task answer s = .ok (answered, s')) : Tidy home s'.places := by
  obtain ⟨_, _, hgiven, hlast⟩ := Tx.bind_eq_ok.mp h
  obtain rfl := reads_requireTask _ _ _ _ hlast
  exact tidy_answerTask hhome hs hgiven

theorem tidy_bringBack {actor : Uid} {task restored : Task} {column : ColumnId} (hhome : home board.id column)
    (hs : OnBoard home board.id task.id s.places)
    (h : bringBack outside actor board task column s = .ok (restored, s')) : Tidy home s'.places := by
  rw [bringBack, Tx.bind_eq_ok] at h
  obtain ⟨back, between, hback, h⟩ := h
  simp only [Tx.bind_eq_ok, Prod.mk.injEq, Tx.pure_eq_ok] at h
  obtain ⟨_, noted, hnoted, _, _, htold, -, rfl⟩ := h
  obtain ⟨hput, hthere⟩ := places_restoreTask hback
  rw [(stays_afterRestore back _ _ _ htold).trans ((stays_recordEvent _ _ _ _ _ _ _ _ hnoted).trans hput)]
  exact hs.tidy.putTask (fun e he hsame ↦ (hs.same e he hsame).symm ▸ hhome) hthere

end Engine

end Taskologic.Daemon
