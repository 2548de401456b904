import Taskologic.Daemon.Server

/-!
# What the queries leave alone

Which queries only read (`reads_checkDeps`, `reads_query`), what a request may rely on once it has loaded
something (`meets_ask`, `meets_loadTask`), and what an edit or a tick of a task does to the tasks table:
`tasks_saveTask` and `tasks_tickItem`.
-/

set_option autoImplicit false
set_option relaxedAutoImplicit false

namespace Taskologic.Daemon

open Taskologic.Core Taskologic.Library

/-- What a section of the daemon did. -/
abbrev Happened : Type 1 := Pool.Happening Section Outside Store

/-! ### Reading -/

theorem reads_demand (p : Store → Bool) (error : AppError) : Tx.Reads (demand p error) :=
  .bind (.read _) fun _ ↦ .check _ _

theorem reads_requireUser (uid : Uid) : Tx.Reads (requireUser uid) :=
  .bind (.read _) fun _ ↦ .require _ _

theorem reads_requireBoard (id : BoardId) : Tx.Reads (requireBoard id) :=
  .bind (.read _) fun _ ↦ .require _ _

theorem reads_requireTask (id : TaskId) : Tx.Reads (requireTask id) :=
  .bind (.read _) fun _ ↦ .require _ _

theorem reads_requireTemplate (id : TemplateId) : Tx.Reads (requireTemplate id) :=
  .bind (.read _) fun _ ↦ .require _ _

theorem reads_requireProgram (id : ProgramId) : Tx.Reads (requireProgram id) :=
  .bind (.read _) fun _ ↦ .require _ _

theorem reads_requireRun (id : RunId) : Tx.Reads (requireRun id) :=
  .bind (.read _) fun _ ↦ .require _ _

theorem reads_nextPosition (column : ColumnId) : Tx.Reads (nextPosition column) :=
  .bind (.read _) fun _ ↦ .bind (.check _ _) fun _ ↦ .pure _

theorem reads_checkDep (uid : Uid) (dep : TaskId) : Tx.Reads (checkDep uid dep) :=
  .bind (.read _) fun _ ↦ .bind (.require _ _) fun _ ↦
    .bind (reads_requireBoard _) fun _ ↦ .check _ _

theorem reads_checkDeps (uid : Uid) (task : TaskId) (dependsOn : List TaskId) :
    Tx.Reads (checkDeps uid task dependsOn) := by
  refine .ite (fun _ ↦ .pure _) fun _ ↦ ?_
  refine .bind (.each fun dep _ ↦ reads_checkDep uid dep) fun _ ↦ .bind (.read _) fun bad ↦ ?_
  cases bad with
  | some dep => exact .fail _
  | none => exact .pure _

theorem reads_checkKnown (reason : Uid → BadRequest) (uid : Uid) :
    Tx.Reads (checkKnown reason uid) := reads_demand _ _

theorem reads_checkPrintRecipients (rules : List PrintRule) : Tx.Reads (checkPrintRecipients rules) :=
  .bind (.each fun _ _ ↦ reads_checkKnown _ _) fun _ ↦ .pure _

theorem reads_checkStepUsers (step : Step) : Tx.Reads (checkStepUsers step) :=
  .bind (.each fun _ _ ↦ reads_checkKnown _ _) fun _ ↦
    .bind (.each fun _ _ ↦ reads_checkKnown _ _) fun _ ↦ .pure _

theorem reads_checkProgram (board : Board) (draft : ProgramDraft) :
    Tx.Reads (checkProgram board draft) :=
  .bind (.lift _) fun _ ↦ .bind (.each fun _ _ ↦ reads_checkStepUsers _) fun _ ↦ .pure _

theorem within_eachWith {α : Type} {R : Store → Store → Prop} [Std.Refl R] [IsTrans Store R]
    {f : Maps → α → Work Maps} (hf : ∀ maps a, Tx.Within R (f maps a)) (maps : Maps) (entries : List α) :
    Tx.Within R (eachWith f maps entries) := by
  induction entries generalizing maps with
  | nil => exact .pure _
  | cons a rest ih => exact .bind (hf maps a) fun maps ↦ ih maps

theorem reads_keptShortId (outside : Outside) (table : ShortIdTable) (key : ℕ) (taken : List ShortId)
    (id : ShortId) (clash : Clash) : Tx.Reads (keptShortId outside table key taken id clash) :=
  .ite (fun _ ↦ .pure _) fun _ ↦ .ite (fun _ ↦ .fail _) fun _ ↦ .require _ _

/-- A task of a file becomes the row with the next number, in the column its own has become. -/
theorem importTask_eq_ok {outside : Outside} {board : BoardId} {maps : Maps} {task : Task} {s s' : Store}
    {pair : TaskId × TaskId} (h : importTask outside board maps task s = .ok (pair, s')) :
    ∃ row : TaskRow, row.id = s.nextTask ∧ row.boardId = board ∧
      maps.columns.lookup task.columnId = some row.columnId ∧ pair = (task.id, s.nextTask) ∧
      s' = (s.insertTask row).setAssignees s.nextTask task.assignees := by
  rw [importTask, Tx.bind_eq_ok] at h
  obtain ⟨column, _, hcolumn, h⟩ := h
  obtain ⟨_, hfound, hsame⟩ := Tx.require_eq_ok.mp hcolumn
  obtain ⟨rfl, rfl⟩ := Prod.mk.inj hsame
  simp only [Tx.bind_eq_ok, Tx.read_eq_ok, Prod.mk.injEq] at h
  obtain ⟨_, _, ⟨rfl, rfl⟩, _, _, ⟨rfl, rfl⟩, h⟩ := h
  split_ifs at h <;>
    simp only [Tx.bind_eq_ok, Tx.pure_eq_ok, Tx.require_eq_ok, Tx.write_eq_ok, Prod.mk.injEq] at h
  · obtain ⟨_, _, ⟨_, -, -, rfl⟩, _, _, ⟨-, rfl⟩, rfl, rfl⟩ := h
    exact ⟨_, rfl, rfl, hfound, rfl, rfl⟩
  · obtain ⟨_, _, ⟨-, rfl⟩, _, _, ⟨-, rfl⟩, rfl, rfl⟩ := h
    exact ⟨_, rfl, rfl, hfound, rfl, rfl⟩

/-- A query changes nothing. -/
theorem reads_query {α : Type} (outside : Outside) (query : Query α) :
    Tx.Reads (query.work outside) := by
  cases query with
  | board id => exact reads_requireBoard id
  | columnBoard column => exact .bind (.read _) fun _ ↦ .bind (.require _ _) fun _ ↦ .pure _
  | columnBusy column => exact .read _
  | task id => exact reads_requireTask id
  | taskByShortId id => exact .read _
  | template id => exact reads_requireTemplate id
  | program id => exact reads_requireProgram id
  | run id => exact reads_requireRun id
  | runningChildren seen root => exact .read _
  | tasksDueForArchive => exact .read _
  | tasksDueForPurge => exact .read _
  | dueRepeats => exact .read _
  | autoStartDue => exact .read _

/-- A section that reads leaves the store as it was. -/
@[simp] theorem snd_run_read {α : Type} (query : Query α) (outside : Outside) (s : Store) :
    (semantics.run (.read query) outside s).2 = s := by
  rcases snd_commit (query.work outside) s with h | ⟨a, h⟩
  · exact h
  · exact (reads_query outside query s a _ h).symm

/-- What is required is there. -/
theorem requireTask_eq_ok {id : TaskId} {s : Store} {r : Task × Store} :
    requireTask id s = .ok r ↔ ∃ task, s.task id = some task ∧ (task, s) = r := by
  simp [requireTask]

theorem requireBoard_eq_ok {id : BoardId} {s : Store} {r : Board × Store} :
    requireBoard id s = .ok r ↔ ∃ board, s.board id = some board ∧ (board, s) = r := by
  simp [requireBoard]

theorem requireTemplate_eq_ok {id : TemplateId} {s : Store} {r : Template × Store} :
    requireTemplate id s = .ok r ↔ ∃ template, s.template id = some template ∧ (template, s) = r := by
  simp [requireTemplate]

theorem requireRun_eq_ok {id : RunId} {s : Store} {r : Run × Store} :
    requireRun id s = .ok r ↔ ∃ run, s.run id = some run ∧ (run, s) = r := by
  simp [requireRun]

/-! ### What a request has loaded -/

section Loading

variable {Rely : Store → Store → Prop} {P : (α : Type) → Section α → Store → Prop}

/-- A query answers with what its work finds, and changes nothing. -/
theorem meets_ask {α : Type} {query : Query α} {s : Store} {M : α → Store → Prop}
    (hread : ∀ s', P α (.read query) s')
    (hM : ∀ (outside : Outside) (s' : Store) (a : α), Rely s s' →
      query.work outside s' = .ok (a, s') → M a s') :
    (ask query).Meets semantics Rely P M s := by
  refine Thread.meets_call fun s' hlater ↦ ⟨hread s', fun outside a ha ↦ ?_⟩
  rw [snd_run_read]
  have hrun : commit (query.work outside) s' = (.ok a, s') :=
    Prod.ext ha (snd_run_read query outside s')
  exact hM outside s' a hlater (commit_eq_ok hrun)

/-- What a property of tasks says of a stored task it says of a loaded one, when it lasts. -/
theorem meets_loadTask {actor : Actor} {id : TaskId} {s : Store} {M : Task → Store → Prop}
    (hread : ∀ (α : Type) (query : Query α) s, P α (.read query) s)
    (hM : ∀ task s s', Rely s s' → M task s → M task s')
    (hloaded : ∀ task s', Rely s s' → s'.task id = some task → M task s') :
    (loadTask actor id).Meets semantics Rely P (fun pair s ↦ M pair.2 s) s := by
  refine .bind (meets_ask (M := M) (hread _ _) fun outside s' task hlater hwork ↦ ?_) ?_
  · obtain ⟨found, hfound, hsame⟩ := requireTask_eq_ok.mp hwork
    obtain ⟨rfl, -⟩ := Prod.ext_iff.mp hsame
    exact hloaded _ s' hlater hfound
  · intro task s' htask
    refine .bind (meets_ask (M := fun _ s ↦ M task s) (hread _ _) fun _ s'' _ hlater _ ↦
      hM task s' s'' hlater htask) fun board s'' htask ↦ ?_
    refine .bind (M := fun _ s ↦ M task s) ?_ fun _ s''' htask ↦ ?_
    · exact fun _ _ ↦ htask
    · exact Thread.meets_pure.mpr htask

end Loading

/-! ### Writing around the tasks -/

theorem recordEvent_eq_ok {board : BoardId} {task : Option TaskId} {actor : Option Uid}
    {kind : EventKind} {now : Instant} {s : Store} {r : Unit × Store} :
    recordEvent board task actor kind now s = .ok r ↔
      ((), { s with events := s.events ++ [⟨board, task, actor, kind, now⟩] }) = r := by
  simp [recordEvent]

theorem tasks_setRepeat (outside : Outside) (task : TaskId) (spec : Option RepeatSpec) :
    Tx.Within (Tx.Keeps Store.tasks) (setRepeat outside task spec) := by
  cases spec with
  | none => exact .write fun _ ↦ rfl
  | some spec => exact .bind (.lift _) fun _ ↦ .write fun _ ↦ rfl

theorem tasks_writeRelations (outside : Outside) (task : TaskId) (draft : TaskDraft) :
    Tx.Within (Tx.Keeps Store.tasks) (writeRelations outside task draft) :=
  .bind (reads_demand _ _).within fun _ ↦ .bind (.write fun _ ↦ rfl) fun _ ↦
    .bind (reads_demand _ _).within fun _ ↦ .bind (.write fun _ ↦ rfl) fun _ ↦
      tasks_setRepeat outside task _

/-! ### Updates of one task -/

section Updates

variable {outside : Outside} {board : Board} {task a : Task} {s s' : Store}

/-- A row that is found after a change of it was there before. -/
theorem exists_taskRow_of_modifyTask {id : TaskId} {f : TaskRow → TaskRow} {row : TaskRow}
    (hf : ∀ row, (f row).id = row.id) (htasks : s'.tasks = (s.modifyTask id f).tasks)
    (hrow : s'.taskRow id = some row) : ∃ old, s.taskRow id = some old ∧ row = f old := by
  have hmodified := Store.taskRow_modifyTask (s := s) id id hf
  rw [if_pos rfl, Store.taskRow, ← htasks] at hmodified
  rw [Store.taskRow, hmodified] at hrow
  obtain ⟨old, hold, rfl⟩ := Option.map_eq_some_iff.mp hrow
  exact ⟨old, hold, rfl⟩

/-- A save that is accepted. -/
theorem tasks_saveTask {actor : Uid} {draft : TaskDraft}
    (h : saveTask outside actor board task draft s = .ok (a, s')) :
    (∃ row, s.taskRow task.id = some row) ∧
      s'.tasks = (s.modifyTask task.id (savedRow draft)).tasks := by
  simp only [saveTask, updateTask, Tx.bind_eq_ok, Tx.lift_eq_ok, Tx.write_eq_ok, Prod.mk.injEq,
    recordEvent_eq_ok, requireTask_eq_ok, Tx.pure_eq_ok] at h
  obtain ⟨_, _, ⟨_, _, _, rfl⟩, _, _, hdeps, _, _, hprint, _, _, ⟨_, _, ⟨_, rfl⟩, _, _, hrelations, saved,
    hsaved, rfl, rfl⟩, _, _, ⟨_, rfl⟩, rfl, rfl⟩ := h
  obtain rfl := reads_checkDeps _ _ _ _ _ _ hdeps
  obtain rfl := reads_checkPrintRecipients _ _ _ _ hprint
  have htasks := tasks_writeRelations _ _ _ _ _ _ hrelations
  obtain ⟨row, hrow, -⟩ := exists_taskRow_of_modifyTask (f := savedRow draft) (fun _ ↦ rfl) htasks
    (Store.toTaskRow_of_task hsaved)
  exact ⟨⟨row, hrow⟩, htasks⟩

/-- A tick that is accepted. -/
theorem tasks_tickItem {actor : Uid} {index : ℕ} {done : Bool}
    (h : tickItem outside actor board task index done s = .ok (a, s')) :
    index < task.checklist.length ∧ (∃ row, s.taskRow task.id = some row) ∧
      s'.tasks = (s.modifyTask task.id fun row ↦ { row with
        checklist := tick task.checklist index done, version := row.version + 1 }).tasks := by
  simp only [tickItem, setChecklistItem, Tx.bind_eq_ok, Tx.check_eq_ok, Tx.write_eq_ok,
    Prod.mk.injEq, recordEvent_eq_ok, requireTask_eq_ok, Tx.pure_eq_ok] at h
  obtain ⟨_, _, ⟨_, _, ⟨hindex, _, rfl⟩, _, _, ⟨_, rfl⟩, ticked, hticked, rfl, rfl⟩, _, _, ⟨_, rfl⟩,
    rfl, rfl⟩ := h
  obtain ⟨row, hrow, -⟩ := exists_taskRow_of_modifyTask
    (f := fun row ↦ { row with
      checklist := tick task.checklist index done, version := row.version + 1 })
    (fun _ ↦ rfl) rfl (Store.toTaskRow_of_task hticked)
  exact ⟨hindex, ⟨row, hrow⟩, rfl⟩

end Updates

/-- A board with two members and one task. -/
def oneTask (draft : TaskDraft) : Store :=
  { Store.empty with
    boards := [boardWithMembers 1 [1, 2]]
    tasks := [newTaskRow 1 (.fromIndex 0) 0 (boardWithMembers 1 [1, 2]) 1 draft 1 none 0]
    nextBoard := 2
    nextColumn := 5
    nextTask := 2 }

end Taskologic.Daemon
