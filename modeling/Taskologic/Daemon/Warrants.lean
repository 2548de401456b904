import Taskologic.Daemon.Accounts
import Taskologic.Library.Recorded

/-!
# What an update is made with

A request loads what it needs in earlier sections, and the update it comes down to is made with that, however long ago
it was. `Update.Warranted` says for each update who has asked for it, what of its arguments was stored at some time
(a board, a task with its board, a program with a column of its board), and that the permission matrix let it be made
with these. Every update that is ever made is warranted, whatever is asked of the daemon and in whatever order the
sections run (`eachAfter_warranted`).

What follows from it for the state in which the update is made depends on what the others have done since.
-/

set_option autoImplicit false
set_option relaxedAutoImplicit false

namespace Taskologic.Daemon

open Taskologic.Core Taskologic.Library

/-! ### What was seen -/

section Saw

variable (t : Recorded Store)

/-- The board is as it was at some time. -/
def SawBoard (board : Board) : Prop := t.Saw fun s ↦ board ∈ s.boards

/-- The task is as it was at some time. -/
def SawTask (task : Task) : Prop := t.Saw fun s ↦ ∃ row ∈ s.tasks, s.hydrate row = task

/-- The task is as it was at some time, and so is its board. -/
def SawOn (board : Board) (task : Task) : Prop := SawBoard t board ∧ SawTask t task ∧ task.boardId = board.id

/-- A template of the board is as it was at some time, and so is the board. -/
def SawTemplate (board : Board) (template : Template) : Prop :=
  SawBoard t board ∧ t.Saw (fun s ↦ template ∈ s.templates) ∧ template.boardId = board.id

/-- The program is as it was at some time, and so is its board. -/
def SawProgram (board : Board) (program : Program) : Prop :=
  SawBoard t board ∧ t.Saw (fun s ↦ program ∈ s.programs) ∧ program.boardId = board.id

/-- The run is as it was at some time, and so is its board. -/
def SawRun (board : Board) (run : Run) : Prop :=
  SawBoard t board ∧ t.Saw (fun s ↦ run ∈ s.runs) ∧ run.boardId = board.id

/-- The board is as it was at some time, and had the column at some time. -/
def SawColumn (board : Board) (column : ColumnId) : Prop :=
  SawBoard t board ∧ t.Saw fun s ↦ ∃ b ∈ s.boards, b.id = board.id ∧ b.hasColumn column = true

end Saw

/-! ### What is asked for -/

/-- Whoever asks for a change of a board may make each part of it. -/
def Actor.MayUpdate (actor : Actor) (before : Board) (req : UpdateBoard) : Prop :=
  (req.isLocked.isSome = true → checkBoard .toggleLock actor before = .ok ()) ∧
    (req.isPrivate.isSome = true → checkBoard .togglePrivate actor before = .ok ()) ∧
    ((req.settings || req.isLocked.isNone && req.isPrivate.isNone) = true →
      checkBoard .editSettings actor before = .ok ())

section Warranted

variable (jobs : List Job) (t : Recorded Store)

/-- A session asks for it. -/
def Asked (p : Actor → Request → Prop) : Prop := ∃ actor req, .request actor req ∈ jobs ∧ p actor req

/-- A session of the person asks for it, and may have it. -/
def AskedBy (uid : Uid) (p : Actor → Request → Prop) : Prop := Asked jobs fun actor req ↦ actor.uid = uid ∧ p actor req

/-- The update is made with what was seen, for somebody who has asked for it and may. -/
def Update.Warranted {α : Type} : Update α → Prop
  | .createBoard uid req => AskedBy jobs uid fun _ asked ↦ asked = .createBoard req
  | .saveBoard uid before req => SawBoard t before ∧ AskedBy jobs uid fun actor asked ↦
      asked = .updateBoard req ∧ req.boardId = before.id ∧ Actor.MayUpdate actor before req
  | .removeBoard uid id => ∃ board, SawBoard t board ∧ board.id = id ∧ AskedBy jobs uid fun actor asked ↦
      asked = .deleteBoard id ∧ checkBoard .deleteBoard actor board = .ok ()
  | .appendColumn uid board name => SawBoard t board ∧ AskedBy jobs uid fun actor asked ↦
      asked = .addColumn board.id name ∧ checkBoard .manageColumns actor board = .ok ()
  | .nameColumn uid board column name => SawColumn t board column ∧ AskedBy jobs uid fun actor asked ↦
      asked = .renameColumn column name ∧ checkBoard .manageColumns actor board = .ok ()
  | .reorderColumns board order => SawBoard t board ∧ Asked jobs fun actor asked ↦
      asked = .reorderColumns board.id order ∧ checkBoard .manageColumns actor board = .ok ()
  | .setColumnSort column sortByDue => ∃ board, SawColumn t board column ∧ Asked jobs fun actor asked ↦
      asked = .setColumnSort column sortByDue ∧ checkBoard .manageColumns actor board = .ok ()
  | .dropColumn uid board plan => SawColumn t board plan.removed ∧ plan.Planned board plan.removed ∧
      AskedBy jobs uid fun actor asked ↦ checkBoard .manageColumns actor board = .ok () ∧
        ∃ moveTasksTo replacements, asked = .removeColumn plan.removed moveTasksTo replacements
  | .joinBoard uid board other => SawBoard t board ∧ AskedBy jobs uid fun actor asked ↦
      asked = .addMember board.id other ∧ checkBoard .manageMembers actor board = .ok ()
  | .leaveBoard uid board other unassign => SawBoard t board ∧ other ≠ board.ownerUid ∧
      AskedBy jobs uid fun actor asked ↦
        asked = .removeMember board.id other unassign ∧ checkBoard .manageMembers actor board = .ok ()
  | .setAdmin uid isAdmin => Asked jobs fun actor asked ↦
      asked = .setAdmin uid isAdmin ∧ actor.isAdmin = true ∧ (uid = actor.uid → isAdmin = true)
  | .updateTimezone uid timezone => AskedBy jobs uid fun _ asked ↦ asked = .setTimezone timezone
  | .login uid hostTz forceAdmin => .login uid hostTz forceAdmin ∈ jobs
  | .makeTask uid board column draft => SawBoard t board ∧ board.hasColumn column = true ∧
      AskedBy jobs uid fun actor asked ↦ checkBoard .addTask actor board = .ok () ∧
        ∃ choice, asked = .createTask board.id choice draft
  | .saveTask uid board task draft => SawOn t board task ∧ AskedBy jobs uid fun actor asked ↦
      asked = .updateTask task.id task.version draft ∧ checkTask .edit actor board task = .ok ()
  -- Whoever stops a root finishes the tasks of its run that are in the started column.
  | .moveTaskBy (some uid) board task destination _ _ _ => SawBoard t board ∧ SawTask t task ∧
      (task.boardId = board.id ∨ task.columnId = board.startedCol ∧ destination = board.finishedCol) ∧
      AskedBy jobs uid fun actor _ ↦ board.isMember actor.uid = true
  | .moveTaskBy none board task destination _ overrideDeps _ => SawOn t board task ∧ Job.tick ∈ jobs ∧
      destination = board.startedCol ∧ overrideDeps = false ∧ t.Saw fun s ↦ ∃ now, task ∈ s.autoStartDue now
  | .giveAnswer board task _ => SawOn t board task ∧ Asked jobs fun actor _ ↦ board.isMember actor.uid = true
  | .tickItem uid board task index done => SawOn t board task ∧ AskedBy jobs uid fun actor asked ↦
      asked = .setChecklistItem task.id index done ∧ board.isMember actor.uid = true
  | .deleteTask uid board task => SawOn t board task ∧ task.isArchived = false ∧
      AskedBy jobs uid fun actor asked ↦
        asked = .deleteTask task.id ∧ checkTask .delete actor board task = .ok ()
  | .purge (some uid) board task => ∃ b loaded, SawOn t b loaded ∧ b.id = board ∧ loaded.id = task ∧
      loaded.isArchived = true ∧ AskedBy jobs uid fun actor asked ↦
        asked = .purgeTask task ∧ checkTask .purge actor b loaded = .ok ()
  | .purge none board task => ∃ b loaded, SawOn t b loaded ∧ b.id = board ∧ loaded.id = task ∧
      Job.tick ∈ jobs ∧ t.Saw fun s ↦ ∃ now, loaded ∈ s.tasksDueForPurge now
  | .bringBack uid board task destination => SawOn t board task ∧ task.isArchived = true ∧
      restoreColumn board task = some destination ∧ AskedBy jobs uid fun actor asked ↦
        asked = .restoreTask task.id ∧ checkTask .restore actor board task = .ok ()
  | .setExcludeFromStats id excluded => ∃ board task, SawOn t board task ∧ task.id = id ∧
      Asked jobs fun actor asked ↦
        asked = .setExcludeFromStats id excluded ∧ checkTask .edit actor board task = .ok ()
  -- Whoever sees the task may stop its repetition.
  | .endRepeat uid board task => SawOn t board task ∧ task.repeats.isSome = true ∧
      AskedBy jobs uid fun actor asked ↦ asked = .stopRepeat task.id ∧ board.isMember actor.uid = true
  | .noteScan uid board task _ => ∃ b loaded, SawOn t b loaded ∧ b.id = board ∧ loaded.id = task ∧
      AskedBy jobs uid fun actor _ ↦ b.isMember actor.uid = true
  | .makeTemplate uid board name draft options => SawBoard t board ∧ AskedBy jobs uid fun actor asked ↦
      asked = .createTemplate board.id name draft options ∧ checkBoard .addTask actor board = .ok ()
  | .saveTemplate uid board id name draft options => ∃ template, SawTemplate t board template ∧ template.id = id ∧
      AskedBy jobs uid fun actor asked ↦ asked = .updateTemplate id name draft options ∧
        checkTemplateManage actor board template.ownerUid = .ok ()
  | .dropTemplate uid board id => ∃ template, SawTemplate t board template ∧ template.id = id ∧
      AskedBy jobs uid fun actor asked ↦
        asked = .deleteTemplate id ∧ checkTemplateManage actor board template.ownerUid = .ok ()
  | .createFromTemplate uid board id column draft => ∃ template, SawTemplate t board template ∧ template.id = id ∧
      board.hasColumn column = true ∧ AskedBy jobs uid fun actor asked ↦
        checkBoard .addTask actor board = .ok () ∧ ∃ choice, asked = .createFromTemplate id choice draft
  | .makeProgram uid board draft => SawBoard t board ∧ AskedBy jobs uid fun actor asked ↦
      asked = .createProgram board.id draft ∧ checkBoard .addTask actor board = .ok ()
  | .saveProgram uid board id draft => ∃ program, SawProgram t board program ∧ program.id = id ∧
      AskedBy jobs uid fun actor asked ↦
        asked = .updateProgram id draft ∧ checkProgramManage actor board program.ownerUid = .ok ()
  | .dropProgram uid board id => ∃ program, SawProgram t board program ∧ program.id = id ∧
      AskedBy jobs uid fun actor asked ↦
        asked = .deleteProgram id ∧ checkProgramManage actor board program.ownerUid = .ok ()
  | .startProgram uid board program column startAt fanOut => SawProgram t board program ∧
      board.hasColumn column = true ∧ AskedBy jobs uid fun actor asked ↦
        checkBoard .addTask actor board = .ok () ∧ ∃ choice, asked = .startProgram program.id choice startAt fanOut
  | .cancel uid board run deleteOpen => SawRun t board run ∧ run.isActive = true ∧
      AskedBy jobs uid fun actor asked ↦
        asked = .cancelRun run.id deleteOpen ∧ checkRunCancel actor board run.startedBy = .ok ()
  | .archive board task => SawOn t board task ∧ Job.tick ∈ jobs ∧
      t.Saw fun s ↦ ∃ now, task ∈ s.tasksDueForArchive now
  | .advanceRepeat id _ => ∃ board task, SawOn t board task ∧ task.id = id ∧ task.isDone board = false ∧
      Job.tick ∈ jobs ∧ t.Saw fun s ↦ ∃ now spec, (task, spec) ∈ s.dueRepeats now
  | .spawnRepeat board firstCol task => SawOn t board task ∧ task.isDone board = true ∧
      board.firstColumn.map Column.id = some firstCol ∧ Job.tick ∈ jobs ∧
      t.Saw fun s ↦ ∃ now spec, (task, spec) ∈ s.dueRepeats now
  | .importEverything file wholeServer clash => .importFile file wholeServer clash ∈ jobs

/-- The section only reads, or its update is warranted. -/
def Section.Warranted {α : Type} (body : Section α) (t : Recorded Store) : Prop :=
  match body with
  | .read _ => True
  | .write update => update.Warranted jobs t

end Warranted

/-! ### Loading -/

section Loading

variable {jobs : List Job} {ρ : Type} {Q : ρ → Recorded Store → Prop} {t t' : Recorded Store} {board : Board}
  {task : Task} {actor : Actor} {req : Request}

/-- What the call runs is warranted. -/
abbrev GoesBy (jobs : List Job) {ρ : Type} (Q : ρ → Recorded Store → Prop) (call : Call ρ) (t : Recorded Store) : Prop :=
  call.Meets semantics.recorded Recorded.Since (fun _ body t ↦ body.Warranted jobs t) Q t

theorem SawBoard.later (h : SawBoard t board) (hlater : t.Since t') : SawBoard t' board := Recorded.Saw.later h hlater

theorem SawTask.later (h : SawTask t task) (hlater : t.Since t') : SawTask t' task := Recorded.Saw.later h hlater

theorem SawOn.later (h : SawOn t board task) (hlater : t.Since t') : SawOn t' board task :=
  ⟨h.1.later hlater, h.2.1.later hlater, h.2.2⟩

theorem SawTemplate.later {template : Template} (h : SawTemplate t board template) (hlater : t.Since t') :
    SawTemplate t' board template := ⟨h.1.later hlater, h.2.1.later hlater, h.2.2⟩

theorem SawProgram.later {program : Program} (h : SawProgram t board program) (hlater : t.Since t') :
    SawProgram t' board program := ⟨h.1.later hlater, h.2.1.later hlater, h.2.2⟩

theorem SawRun.later {run : Run} (h : SawRun t board run) (hlater : t.Since t') : SawRun t' board run :=
  ⟨h.1.later hlater, h.2.1.later hlater, h.2.2⟩

theorem SawColumn.later {column : ColumnId} (h : SawColumn t board column) (hlater : t.Since t') :
    SawColumn t' board column := ⟨h.1.later hlater, h.2.later hlater⟩

/-- A query finds what is there when it is made. -/
theorem goesBy_ask {α : Type} {query : Query α} {M : α → Recorded Store → Prop}
    (hM : ∀ (outside : Outside) (t' : Recorded Store) (a : α), t.Since t' →
      query.work outside t'.now = .ok (a, t'.now) → M a (t'.next t'.now)) :
    GoesBy jobs M (ask query) t := by
  refine Thread.meets_call fun t' hlater ↦ ⟨trivial, fun outside a ha ↦ ?_⟩
  have hstays : (semantics.run (.read query) outside t'.now).2 = t'.now := snd_run_read query outside t'.now
  have hrun : commit (query.work outside) t'.now = (.ok a, t'.now) := Prod.ext ha hstays
  change M a (t'.next (semantics.run (.read query) outside t'.now).2)
  rw [hstays]
  exact hM outside t' a hlater (commit_eq_ok hrun)

/-- What was there when it was asked for was seen. -/
theorem saw_next {φ : Store → Prop} (h : φ t.now) : (t.next t.now).Saw φ :=
  Recorded.Saw.later (.now h) (t.since_next t.now)

/-- An update. -/
theorem goesBy_run {update : Update ρ} (h : ∀ t', t.Since t' → update.Warranted jobs t') :
    GoesBy jobs (fun _ t' ↦ t.Since t') (run update) t :=
  Thread.meets_call fun t' hlater ↦ ⟨h t' hlater, fun _ _ _ ↦
    IsTrans.trans _ _ _ hlater (t'.since_next _)⟩

/-- An update that is made last. -/
theorem goesBy_finally {update : Update ρ} (h : ∀ t', t.Since t' → update.Warranted jobs t') :
    GoesBy jobs (fun _ _ ↦ True) (run update) t := (goesBy_run h).mono fun _ _ _ ↦ trivial

/-- An update, and an answer made from what it answers. -/
theorem goesBy_last {ρ' : Type} {update : Update ρ} {f : ρ → ρ'}
    (h : ∀ t', t.Since t' → update.Warranted jobs t') :
    GoesBy jobs (fun _ _ ↦ True) (run update >>= fun a ↦ pure (f a)) t :=
  .bind (goesBy_run h) fun _ _ _ ↦ Thread.meets_pure.mpr trivial

/-- An update whose failure is looked at. -/
theorem goesBy_attempt {update : Update ρ} (h : ∀ t', t.Since t' → update.Warranted jobs t') :
    GoesBy jobs (fun _ t' ↦ t.Since t') (run update).attempt t :=
  fun t' hlater ↦ ⟨h t' hlater, fun _ _ _ ↦ IsTrans.trans _ _ _ hlater (t'.since_next _)⟩

/-- What goes on only when it is permitted. -/
theorem goesBy_permit {checked : Except Denial Unit} {next : Unit → Call ρ}
    (h : checked = .ok () → GoesBy jobs Q (next ()) t) : GoesBy jobs Q (permit checked >>= next) t :=
  .done_bind fun _ hchecked ↦ h (mapError_eq_ok.mp hchecked)

/-- What a run has made is stored. -/
theorem task_of_mem_runTasks {s : Store} {run : RunId} {entry : TaskLink × Task} (h : entry ∈ s.runTasks run) :
    entry.1 ∈ s.links ∧ entry.1.run = run ∧ s.task entry.1.taskId = some entry.2 := by
  have hentry := (List.perm_insertionSort _ _).mem_iff.mp h
  obtain ⟨link, hlink, hfound⟩ := List.mem_filterMap.mp hentry
  obtain ⟨task, htask, rfl⟩ := Option.map_eq_some_iff.mp hfound
  obtain ⟨hmem, hrun⟩ := List.mem_filter.mp hlink
  exact ⟨hmem, by simpa using hrun, htask⟩

/-- A child of a root is stored, in the started column of the board. -/
theorem of_mem_runningChildren {s : Store} {root child : Task} (h : child ∈ s.runningChildren board root) :
    s.task child.id = some child ∧ child.columnId = board.startedCol := by
  unfold Store.runningChildren at h
  split at h
  · exact (List.not_mem_nil h).elim
  · split_ifs at h
    · obtain ⟨hmem, hkept⟩ := List.mem_filter.mp h
      obtain ⟨entry, hentry, rfl⟩ := List.mem_map.mp hmem
      obtain ⟨-, -, htask⟩ := task_of_mem_runTasks hentry
      simp only [Bool.and_eq_true, beq_iff_eq] at hkept
      refine ⟨?_, hkept.2⟩
      rwa [Store.id_of_task htask]
    · exact (List.not_mem_nil h).elim

theorem goesBy_board (id : BoardId) :
    GoesBy jobs (fun board t ↦ SawBoard t board ∧ id = board.id) (ask (.board id)) t := by
  refine goesBy_ask fun _ t' board _ hwork ↦ ?_
  obtain ⟨found, hfound, hsame⟩ := requireBoard_eq_ok.mp hwork
  obtain ⟨rfl, -⟩ := Prod.ext_iff.mp hsame
  exact ⟨saw_next (List.mem_of_find?_eq_some hfound), (Store.id_of_board hfound).symm⟩

/-- The board of what was seen is loaded next. -/
theorem goesBy_boardOf {φ : Store → Prop} (id : BoardId) (h : t.Saw φ) :
    GoesBy jobs (fun board t ↦ SawBoard t board ∧ t.Saw φ ∧ id = board.id) (ask (.board id)) t := by
  refine goesBy_ask fun _ t' board hlater hwork ↦ ?_
  obtain ⟨found, hfound, hsame⟩ := requireBoard_eq_ok.mp hwork
  obtain ⟨rfl, -⟩ := Prod.ext_iff.mp hsame
  exact ⟨saw_next (List.mem_of_find?_eq_some hfound),
    h.later (IsTrans.trans _ _ _ hlater (t'.since_next _)), (Store.id_of_board hfound).symm⟩

/-- A task that is found is stored. -/
theorem exists_row_of_task {s : Store} {id : TaskId} (h : s.task id = some task) :
    ∃ row ∈ s.tasks, s.hydrate row = task := by
  obtain ⟨row, hrow, htask⟩ := Option.map_eq_some_iff.mp h
  exact ⟨row, List.mem_of_find?_eq_some hrow, htask⟩

theorem goesBy_task (id : TaskId) :
    GoesBy jobs (fun task t ↦ SawTask t task ∧ id = task.id) (ask (.task id)) t := by
  refine goesBy_ask fun _ t' task _ hwork ↦ ?_
  obtain ⟨found, hfound, hsame⟩ := requireTask_eq_ok.mp hwork
  obtain ⟨rfl, -⟩ := Prod.ext_iff.mp hsame
  exact ⟨saw_next (exists_row_of_task hfound), (Store.id_of_task hfound).symm⟩

theorem goesBy_loadBoard (actor : Actor) (id : BoardId) :
    GoesBy jobs (fun board t ↦ SawBoard t board ∧ id = board.id) (loadBoard actor id) t :=
  .bind (goesBy_board id) fun _ _ hboard ↦ goesBy_permit fun _ ↦ Thread.meets_pure.mpr hboard

theorem goesBy_loadTask (actor : Actor) (id : TaskId) :
    GoesBy jobs (fun pair t ↦ SawOn t pair.1 pair.2 ∧ id = pair.2.id ∧ pair.1.isMember actor.uid = true)
      (loadTask actor id) t := by
  refine .bind (goesBy_task id) fun task t' htask ↦ ?_
  refine .bind (goesBy_boardOf task.boardId htask.1) fun board t'' hboard ↦ ?_
  refine .done_bind fun _ hvisible ↦ Thread.meets_pure.mpr ⟨hboard, htask.2, ?_⟩
  exact checkBoard_view_eq_ok.mp (mapError_eq_ok.mp hvisible)

theorem goesBy_loadTemplate (actor : Actor) (id : TemplateId) :
    GoesBy jobs (fun pair t ↦ SawTemplate t pair.1 pair.2 ∧ id = pair.2.id) (loadTemplate actor id) t := by
  have hfind : GoesBy jobs (fun template t ↦ t.Saw (fun s ↦ template ∈ s.templates) ∧ id = template.id)
      (ask (.template id)) t := by
    refine goesBy_ask fun _ t' template _ hwork ↦ ?_
    obtain ⟨found, hfound, hsame⟩ := requireTemplate_eq_ok.mp hwork
    obtain ⟨rfl, -⟩ := Prod.ext_iff.mp hsame
    exact ⟨saw_next (List.mem_of_find?_eq_some hfound), Eq.symm (by simpa using List.find?_some hfound)⟩
  refine .bind hfind fun template _ htemplate ↦ ?_
  refine .bind (goesBy_boardOf template.boardId htemplate.1) fun _ _ hboard ↦ ?_
  exact .done_bind fun _ _ ↦ Thread.meets_pure.mpr ⟨hboard, htemplate.2⟩

theorem requireProgram_eq_ok {id : ProgramId} {s : Store} {r : Program × Store} :
    requireProgram id s = .ok r ↔ ∃ program, s.program id = some program ∧ (program, s) = r := by
  simp [requireProgram]

theorem goesBy_loadProgram (actor : Actor) (id : ProgramId) :
    GoesBy jobs (fun pair t ↦ SawProgram t pair.1 pair.2 ∧ id = pair.2.id) (loadProgram actor id) t := by
  have hfind : GoesBy jobs (fun program t ↦ t.Saw (fun s ↦ program ∈ s.programs) ∧ id = program.id)
      (ask (.program id)) t := by
    refine goesBy_ask fun _ t' program _ hwork ↦ ?_
    obtain ⟨found, hfound, hsame⟩ := requireProgram_eq_ok.mp hwork
    obtain ⟨rfl, -⟩ := Prod.ext_iff.mp hsame
    exact ⟨saw_next (List.mem_of_find?_eq_some hfound), Eq.symm (by simpa using List.find?_some hfound)⟩
  refine .bind hfind fun program _ hprogram ↦ ?_
  refine .bind (goesBy_boardOf program.boardId hprogram.1) fun _ _ hboard ↦ ?_
  exact .done_bind fun _ _ ↦ Thread.meets_pure.mpr ⟨hboard, hprogram.2⟩

theorem goesBy_loadRun (actor : Actor) (id : RunId) :
    GoesBy jobs (fun pair t ↦ SawRun t pair.1 pair.2 ∧ id = pair.2.id) (loadRun actor id) t := by
  have hfind : GoesBy jobs (fun run t ↦ t.Saw (fun s ↦ run ∈ s.runs) ∧ id = run.id) (ask (.run id)) t := by
    refine goesBy_ask fun _ t' run _ hwork ↦ ?_
    obtain ⟨found, hfound, hsame⟩ := requireRun_eq_ok.mp hwork
    obtain ⟨rfl, -⟩ := Prod.ext_iff.mp hsame
    exact ⟨saw_next (List.mem_of_find?_eq_some hfound), Eq.symm (by simpa using List.find?_some hfound)⟩
  refine .bind hfind fun run _ hrun ↦ ?_
  refine .bind (goesBy_boardOf run.boardId hrun.1) fun _ _ hboard ↦ ?_
  exact .done_bind fun _ _ ↦ Thread.meets_pure.mpr ⟨hboard, hrun.2⟩

/-- The board of a column had the column when it was looked for. -/
theorem goesBy_boardOfColumn (actor : Actor) (column : ColumnId) :
    GoesBy jobs (fun board t ↦ SawColumn t board column) (boardOfColumn actor column) t := by
  have hfind : GoesBy jobs (fun id t ↦ t.Saw fun s ↦ ∃ b ∈ s.boards, b.id = id ∧ b.hasColumn column = true)
      (ask (.columnBoard column)) t := by
    refine goesBy_ask fun _ t' id _ hwork ↦ ?_
    simp only [Query.work, Tx.bind_eq_ok, Tx.read_eq_ok, Tx.require_eq_ok, Tx.pure_eq_ok, Prod.mk.injEq] at hwork
    obtain ⟨_, _, ⟨rfl, rfl⟩, _, _, ⟨holder, hholder, rfl, rfl⟩, rfl, -⟩ := hwork
    have hcolumn := List.find?_some (p := fun b : Board ↦ b.hasColumn column) hholder
    exact saw_next ⟨holder, List.mem_of_find?_eq_some hholder, rfl, hcolumn⟩
  refine .bind hfind fun id _ hid ↦ ?_
  refine .bind (goesBy_boardOf id hid) fun board _ hboard ↦ ?_
  obtain ⟨hseen, hcolumn, rfl⟩ := hboard
  exact goesBy_permit fun _ ↦ Thread.meets_pure.mpr ⟨hseen, hcolumn⟩

/-- What is checked last. -/
theorem goesBy_permitted {I : Recorded Store → Prop} {checked : Except Denial Unit} (h : checked = .ok () → I t) :
    GoesBy jobs (fun _ ↦ I) (permit checked) t := fun _ hchecked ↦ h (mapError_eq_ok.mp hchecked)

/-- Whoever goes on may make each part of the change. -/
theorem goesBy_permitUpdate {I : Recorded Store → Prop} (ht : I t) (actor : Actor) (before : Board)
    (change : UpdateBoard) :
    GoesBy jobs (fun _ t ↦ I t ∧ Actor.MayUpdate actor before change) (permitUpdate actor before change) t := by
  unfold permitUpdate
  dsimp only
  split_ifs with hlock hprivate hrest hrest hprivate hrest hrest
  · exact goesBy_permit fun hone ↦ goesBy_permit fun htwo ↦ goesBy_permitted fun hthree ↦
      ⟨ht, fun _ ↦ hone, fun _ ↦ htwo, fun _ ↦ hthree⟩
  · exact goesBy_permit fun hone ↦ goesBy_permit fun htwo ↦ Thread.meets_pure.mpr
      ⟨ht, fun _ ↦ hone, fun _ ↦ htwo, fun h ↦ absurd h hrest⟩
  · exact goesBy_permit fun hone ↦ goesBy_permitted fun hthree ↦
      ⟨ht, fun _ ↦ hone, fun h ↦ absurd h hprivate, fun _ ↦ hthree⟩
  · exact goesBy_permit fun hone ↦ Thread.meets_pure.mpr
      ⟨ht, fun _ ↦ hone, fun h ↦ absurd h hprivate, fun h ↦ absurd h hrest⟩
  · exact goesBy_permit fun htwo ↦ goesBy_permitted fun hthree ↦
      ⟨ht, fun h ↦ absurd h hlock, fun _ ↦ htwo, fun _ ↦ hthree⟩
  · exact goesBy_permit fun htwo ↦ Thread.meets_pure.mpr
      ⟨ht, fun h ↦ absurd h hlock, fun _ ↦ htwo, fun h ↦ absurd h hrest⟩
  · exact goesBy_permitted fun hthree ↦
      ⟨ht, fun h ↦ absurd h hlock, fun h ↦ absurd h hprivate, fun _ ↦ hthree⟩
  · exact Thread.meets_pure.mpr ⟨ht, fun h ↦ absurd h hlock, fun h ↦ absurd h hprivate, fun h ↦ absurd h hrest⟩

theorem hasColumn_of_mem {column : Column} (h : column ∈ board.columns) : board.hasColumn column.id = true := by
  rw [hasColumn_eq_any, List.any_eq_true]
  exact ⟨column, h, by simp⟩

/-- A column that is chosen is one of the board's. -/
theorem goesBy_chooseColumn {I : Recorded Store → Prop} (ht : I t) (choice : Option ColumnId) :
    GoesBy jobs (fun column t ↦ I t ∧ board.hasColumn column = true) (chooseColumn board choice) t := by
  cases choice with
  | some column =>
    rw [chooseColumn]
    split_ifs with hcolumn
    · exact Thread.meets_pure.mpr ⟨ht, hcolumn⟩
    · exact fun _ h ↦ nomatch h
  | none =>
    rw [chooseColumn]
    cases hfirst : board.firstColumn with
    | some column => exact Thread.meets_pure.mpr ⟨ht, hasColumn_of_mem (mem_of_firstMinBy hfirst)⟩
    | none => exact fun _ h ↦ nomatch h

end Loading

/-! ### Requests -/

section Requests

variable {jobs : List Job} {t : Recorded Store} {board : Board} {task : Task} {actor : Actor} {req : Request}

/-- A move of a task that was seen on its board, asked for by a member. -/
theorem SawOn.moves (h : SawOn t board task) (hask : .request actor req ∈ jobs)
    (hmember : board.isMember actor.uid = true) (destination : ColumnId) (position : Option ℤ) (overrideDeps : Bool)
    (answer : Option Text) {t' : Recorded Store} (hlater : t.Since t') :
    (Update.moveTaskBy actor.uid board task destination position overrideDeps answer).Warranted jobs t' :=
  ⟨h.1.later hlater, h.2.1.later hlater, .inl h.2.2, actor, req, hask, rfl, hmember⟩

/-- A scan of a task that was seen on its board, by a member. -/
theorem SawOn.scans (h : SawOn t board task) (hask : .request actor req ∈ jobs)
    (hmember : board.isMember actor.uid = true) (action : ScanAction) {t' : Recorded Store} (hlater : t.Since t') :
    (Update.noteScan actor.uid board.id task.id action).Warranted jobs t' :=
  ⟨board, task, h.later hlater, rfl, rfl, actor, req, hask, rfl, hmember⟩

theorem goesBy_answerQuestion {answer : Text} (h : SawOn t board task) (hask : .request actor req ∈ jobs)
    (hmember : board.isMember actor.uid = true) :
    GoesBy jobs (fun _ t' ↦ t.Since t') (answerQuestion actor board task answer) t := by
  unfold answerQuestion
  cases Task.question task with
  | none => exact fun _ h ↦ nomatch h
  | some question =>
    dsimp only
    split_ifs
    · exact fun _ h ↦ nomatch h
    · exact goesBy_run fun _ hlater ↦ h.moves hask hmember _ _ _ _ hlater
    · exact goesBy_run fun _ hlater ↦ ⟨h.later hlater, actor, req, hask, hmember⟩

theorem goesBy_scanMove {action : ScanAction} {answer : Option Text} (h : SawOn t board task)
    (hask : .request actor req ∈ jobs) (hmember : board.isMember actor.uid = true) :
    GoesBy jobs (fun _ _ ↦ True) (scanMove actor board task action answer) t := by
  unfold scanMove
  cases scanTarget action board task with
  | error refusal => exact fun _ _ ↦ trivial
  | ok target =>
    refine .bind (goesBy_attempt fun _ hlater ↦ h.moves hask hmember _ _ _ _ hlater) fun moved t' hlater ↦ ?_
    cases moved with
    | ok moved => exact goesBy_last fun _ hlast ↦ h.scans hask hmember _ (IsTrans.trans _ _ _ hlater hlast)
    | error error => cases error <;> exact fun _ _ ↦ trivial

theorem goesBy_scanAnswer {action : ScanAction} (h : SawOn t board task) (hask : .request actor req ∈ jobs)
    (hmember : board.isMember actor.uid = true) :
    GoesBy jobs (fun _ _ ↦ True) (scanAnswer actor board task action) t := by
  unfold scanAnswer
  cases Task.question task with
  | none => exact fun _ _ ↦ trivial
  | some question =>
    dsimp only
    cases question.answerFor action with
    | none => exact fun _ _ ↦ trivial
    | some answer =>
      dsimp only
      split_ifs
      · exact fun _ _ ↦ trivial
      · exact .bind (goesBy_answerQuestion h hask hmember) fun _ _ hlater ↦
          goesBy_last fun _ hlast ↦ h.scans hask hmember _ (IsTrans.trans _ _ _ hlater hlast)
      · exact goesBy_scanMove h hask hmember

/-- The stop code of a root: its children were in the started column of the board. -/
theorem goesBy_finishChildren (h : SawOn t board task) (hask : .request actor req ∈ jobs)
    (hmember : board.isMember actor.uid = true) :
    GoesBy jobs (fun _ _ ↦ True) (finishChildren actor board task) t := by
  have hchildren : GoesBy jobs (fun running t' ↦ t.Since t' ∧ ∀ child ∈ running,
      SawTask t' child ∧ child.columnId = board.startedCol) (ask (.runningChildren board task)) t := by
    refine goesBy_ask fun _ t' running hlater hwork ↦ ?_
    simp only [Query.work, Tx.read_eq_ok, Prod.mk.injEq] at hwork
    obtain ⟨rfl, -⟩ := hwork
    exact ⟨IsTrans.trans _ _ _ hlater (t'.since_next _), fun child hchild ↦
      ⟨saw_next (exists_row_of_task (of_mem_runningChildren hchild).1), (of_mem_runningChildren hchild).2⟩⟩
  unfold finishChildren
  split_ifs
  · exact fun _ _ ↦ trivial
  · refine .bind hchildren fun running t' hrunning ↦ ?_
    obtain ⟨hlater, hseen⟩ := hrunning
    split_ifs
    · exact fun _ _ ↦ trivial
    · refine .bind (Thread.Meets.each (I := fun t'' ↦ t'.Since t'') ?_ List.prefix_rfl) fun _ t'' hthen ↦ ?_
      · intro child hchild t'' hthen
        refine .bind (goesBy_attempt fun t''' hlast ↦ ?_) fun moved t''' hlast ↦ ?_
        · have hmoves := IsTrans.trans _ _ _ hthen hlast
          exact ⟨h.1.later (IsTrans.trans _ _ _ hlater hmoves), (hseen child hchild).1.later hmoves,
            .inr ⟨(hseen child hchild).2, rfl⟩, actor, req, hask, rfl, hmember⟩
        · have hstill : t'.Since t''' := IsTrans.trans _ _ _ hthen hlast
          cases moved with
          | ok moved => exact Thread.meets_pure.mpr hstill
          | error error =>
            cases error <;> first | exact Thread.meets_pure.mpr hstill | exact fun _ ha ↦ by cases ha
      · have hnow : t.Since t'' := IsTrans.trans _ _ _ hlater hthen
        exact .bind (goesBy_run fun _ hlast ↦ h.scans hask hmember _ (IsTrans.trans _ _ _ hnow hlast)) fun _ _ _ ↦
          .bind (goesBy_task task.id) fun _ _ _ ↦ Thread.meets_pure.mpr trivial

theorem goesBy_scanTask {action : ScanAction} (h : SawOn t board task) (hask : .request actor req ∈ jobs)
    (hmember : board.isMember actor.uid = true) :
    GoesBy jobs (fun _ _ ↦ True) (scanTask actor board task action) t := by
  cases action with
  | finishChildren => exact goesBy_finishChildren h hask hmember
  | startPause | finish => exact goesBy_scanMove h hask hmember
  | yes | no | choice n => exact goesBy_scanAnswer h hask hmember

theorem goesBy_scan (payload : Text) (hask : .request actor req ∈ jobs) :
    GoesBy jobs (fun _ _ ↦ True) (Daemon.scan actor payload) t := by
  unfold Daemon.scan
  cases ScanPayload.parse payload with
  | error reason => exact fun _ _ ↦ trivial
  | ok parsed =>
    have hfind : GoesBy jobs (fun found t ↦ ∀ task ∈ found, SawTask t task) (ask (.taskByShortId parsed.shortId)) t := by
      refine goesBy_ask fun _ t' found _ hwork task htask ↦ ?_
      simp only [Query.work, Tx.read_eq_ok, Prod.mk.injEq] at hwork
      obtain ⟨rfl, -⟩ := hwork
      obtain ⟨row, hrow, rfl⟩ := Option.map_eq_some_iff.mp htask
      exact saw_next ⟨row, List.mem_of_find?_eq_some hrow, rfl⟩
    refine .bind hfind fun found t' hfound ↦ ?_
    cases found with
    | none => exact fun _ _ ↦ trivial
    | some task =>
      refine .bind (goesBy_boardOf task.boardId (hfound task rfl)) fun board t'' hboard ↦ ?_
      split_ifs with hmove
      · exact goesBy_scanTask hboard hask (isMember_of_checkTask hmove)
      · exact fun _ _ ↦ trivial

theorem goesBy_columnsChanged (id : BoardId) :
    GoesBy jobs (fun _ _ ↦ True) (columnsChanged actor id) t :=
  .bind (goesBy_loadBoard actor id) fun _ _ _ ↦ Thread.meets_pure.mpr trivial

/-- Every request makes its updates with what it has seen and may. -/
theorem goesBy_handle (hask : .request actor req ∈ jobs) :
    GoesBy jobs (fun _ _ ↦ True) (handle actor req) t := by
  cases req with
  | createBoard change => exact goesBy_last fun _ _ ↦ ⟨actor, _, hask, rfl, rfl⟩
  | updateBoard change =>
    refine .bind (goesBy_board _) fun before _ hboard ↦ ?_
    refine .bind (goesBy_permitUpdate (I := fun t ↦ SawBoard t before) hboard.1 _ _ _) fun _ _ hmay ↦ ?_
    exact goesBy_last fun _ hlater ↦ ⟨hmay.1.later hlater, actor, _, hask, rfl, rfl, hboard.2, hmay.2⟩
  | deleteBoard id =>
    refine .bind (goesBy_board _) fun board _ hboard ↦ goesBy_permit fun hmay ↦ ?_
    exact goesBy_last fun _ hlater ↦ ⟨board, hboard.1.later hlater, rfl, actor, _, hask, rfl, hboard.2 ▸ rfl, hmay⟩
  | addColumn id name =>
    refine .bind (goesBy_loadBoard _ _) fun board _ hboard ↦ goesBy_permit fun hmay ↦ ?_
    obtain ⟨hseen, rfl⟩ := hboard
    exact .bind (goesBy_run fun _ hlater ↦ ⟨hseen.later hlater, actor, _, hask, rfl, rfl, hmay⟩) fun _ _ _ ↦
      goesBy_columnsChanged _
  | reorderColumns id order =>
    refine .bind (goesBy_loadBoard _ _) fun board _ hboard ↦ goesBy_permit fun hmay ↦ ?_
    obtain ⟨hseen, rfl⟩ := hboard
    exact .bind (goesBy_run fun _ hlater ↦ ⟨hseen.later hlater, actor, _, hask, rfl, hmay⟩) fun _ _ _ ↦
      goesBy_columnsChanged _
  | renameColumn column name =>
    refine .bind (goesBy_boardOfColumn _ _) fun board _ hcolumn ↦ goesBy_permit fun hmay ↦ ?_
    exact .bind (goesBy_run fun _ hlater ↦ ⟨hcolumn.later hlater, actor, _, hask, rfl, rfl, hmay⟩) fun _ _ _ ↦
      goesBy_columnsChanged _
  | setColumnSort column sortByDue =>
    refine .bind (goesBy_boardOfColumn _ _) fun board _ hcolumn ↦ goesBy_permit fun hmay ↦ ?_
    exact .bind (goesBy_run fun _ hlater ↦ ⟨board, hcolumn.later hlater, actor, _, hask, rfl, hmay⟩) fun _ _ _ ↦
      goesBy_columnsChanged _
  | removeColumn column moveTasksTo replacements =>
    refine .bind (goesBy_boardOfColumn _ _) fun board t' hcolumn ↦ goesBy_permit fun hmay ↦ ?_
    refine .bind (M := fun _ t ↦ SawColumn t board column) ?_ fun hasTasks _ hcolumn ↦ ?_
    · exact goesBy_ask fun _ t'' _ hlater _ ↦ hcolumn.later (IsTrans.trans _ _ _ hlater (t''.since_next _))
    · refine .done_bind fun plan hplan ↦ .bind (goesBy_run fun _ hlater ↦ ?_) fun _ _ _ ↦ goesBy_columnsChanged _
      have hplanned := planned_of_planColumnRemoval (mapError_eq_ok.mp hplan)
      obtain rfl := hplanned.removed
      exact ⟨hcolumn.later hlater, hplanned, actor, _, hask, rfl, hmay, _, _, rfl⟩
  | addMember id uid =>
    refine .bind (goesBy_loadBoard _ _) fun board _ hboard ↦ goesBy_permit fun hmay ↦ ?_
    obtain ⟨hseen, rfl⟩ := hboard
    exact .bind (goesBy_run fun _ hlater ↦ ⟨hseen.later hlater, actor, _, hask, rfl, rfl, hmay⟩) fun _ _ _ ↦
      .bind (goesBy_loadBoard _ _) fun _ _ _ ↦ Thread.meets_pure.mpr trivial
  | removeMember id uid unassign =>
    refine .bind (goesBy_loadBoard _ _) fun board _ hboard ↦ goesBy_permit fun hmay ↦ .check_bind fun howner ↦ ?_
    obtain ⟨hseen, rfl⟩ := hboard
    exact .bind (goesBy_run fun _ hlater ↦ ⟨hseen.later hlater, howner, actor, _, hask, rfl, rfl, hmay⟩) fun _ _ _ ↦
      .bind (goesBy_loadBoard _ _) fun _ _ _ ↦ Thread.meets_pure.mpr trivial
  | setAdmin uid isAdmin =>
    refine goesBy_permit fun hmay ↦ .check_bind fun hown ↦ goesBy_last fun _ _ ↦ ?_
    exact ⟨actor, _, hask, rfl, ensure_eq_ok.mp hmay, hown⟩
  | createTask id column draft =>
    refine .bind (goesBy_loadBoard _ _) fun board _ hboard ↦ goesBy_permit fun hmay ↦ ?_
    obtain ⟨hseen, rfl⟩ := hboard
    refine .bind (goesBy_chooseColumn (I := fun t ↦ SawBoard t board) hseen _) fun _ _ hcolumn ↦ ?_
    exact goesBy_last fun _ hlater ↦
      ⟨hcolumn.1.later hlater, hcolumn.2, actor, _, hask, rfl, hmay, _, rfl⟩
  | updateTask id version draft =>
    refine .bind (goesBy_loadTask _ _) fun pair _ htask ↦ goesBy_permit fun hmay ↦ .check_bind fun hversion ↦ ?_
    obtain ⟨hseen, rfl, -⟩ := htask
    exact goesBy_last fun _ hlater ↦ ⟨hseen.later hlater, actor, _, hask, rfl, hversion ▸ rfl, hmay⟩
  | moveTask id destination position overrideDeps answer =>
    refine .bind (goesBy_loadTask _ _) fun pair _ htask ↦ goesBy_permit fun _ ↦ ?_
    exact goesBy_last fun _ hlater ↦ htask.1.moves hask htask.2.2 _ _ _ _ hlater
  | answerQuestion id answer =>
    refine .bind (goesBy_loadTask _ _) fun pair _ htask ↦ goesBy_permit fun _ ↦ ?_
    exact .bind (goesBy_answerQuestion htask.1 hask htask.2.2) fun _ _ _ ↦ Thread.meets_pure.mpr trivial
  | setChecklistItem id index done =>
    refine .bind (goesBy_loadTask _ _) fun pair _ htask ↦ goesBy_permit fun _ ↦ ?_
    obtain ⟨hseen, rfl, hmember⟩ := htask
    exact goesBy_last fun _ hlater ↦ ⟨hseen.later hlater, actor, _, hask, rfl, rfl, hmember⟩
  | deleteTask id =>
    refine .bind (goesBy_loadTask _ _) fun pair _ htask ↦ goesBy_permit fun hmay ↦ .check_bind fun hlive ↦ ?_
    obtain ⟨hseen, rfl, -⟩ := htask
    exact goesBy_last fun _ hlater ↦ ⟨hseen.later hlater, hlive, actor, _, hask, rfl, rfl, hmay⟩
  | purgeTask id =>
    refine .bind (goesBy_loadTask _ _) fun pair _ htask ↦ goesBy_permit fun hmay ↦ .check_bind fun harchived ↦ ?_
    obtain ⟨hseen, rfl, -⟩ := htask
    exact goesBy_last fun _ hlater ↦
      ⟨pair.1, pair.2, hseen.later hlater, rfl, rfl, harchived, actor, _, hask, rfl, rfl, hmay⟩
  | restoreTask id =>
    refine .bind (goesBy_loadTask _ _) fun pair _ htask ↦ goesBy_permit fun hmay ↦ .check_bind fun harchived ↦ ?_
    obtain ⟨hseen, rfl, -⟩ := htask
    cases hcolumn : restoreColumn pair.1 pair.2 with
    | none => exact fun _ h ↦ nomatch h
    | some destination =>
      exact goesBy_last fun _ hlater ↦
        ⟨hseen.later hlater, harchived, hcolumn, actor, _, hask, rfl, rfl, hmay⟩
  | setExcludeFromStats id excluded =>
    refine .bind (goesBy_loadTask _ _) fun pair _ htask ↦ goesBy_permit fun hmay ↦ ?_
    obtain ⟨hseen, rfl, -⟩ := htask
    exact goesBy_last fun _ hlater ↦ ⟨pair.1, pair.2, hseen.later hlater, rfl, actor, _, hask, rfl, hmay⟩
  | createTemplate id name draft options =>
    refine .bind (goesBy_loadBoard _ _) fun board _ hboard ↦ goesBy_permit fun hmay ↦ ?_
    obtain ⟨hseen, rfl⟩ := hboard
    exact goesBy_last fun _ hlater ↦ ⟨hseen.later hlater, actor, _, hask, rfl, rfl, hmay⟩
  | updateTemplate id name draft options =>
    refine .bind (goesBy_loadTemplate _ _) fun pair _ htemplate ↦ goesBy_permit fun hmay ↦ ?_
    obtain ⟨hseen, rfl⟩ := htemplate
    exact goesBy_last fun _ hlater ↦ ⟨pair.2, hseen.later hlater, rfl, actor, _, hask, rfl, rfl, hmay⟩
  | createFromTemplate id column draft =>
    refine .bind (goesBy_loadTemplate _ _) fun pair _ htemplate ↦ goesBy_permit fun hmay ↦ ?_
    obtain ⟨hseen, rfl⟩ := htemplate
    refine .bind (goesBy_chooseColumn (I := fun t ↦ SawTemplate t pair.1 pair.2) hseen _) fun _ _ hcolumn ↦ ?_
    exact goesBy_last fun _ hlater ↦
      ⟨pair.2, hcolumn.1.later hlater, rfl, hcolumn.2, actor, _, hask, rfl, hmay, _, rfl⟩
  | deleteTemplate id =>
    refine .bind (goesBy_loadTemplate _ _) fun pair _ htemplate ↦ goesBy_permit fun hmay ↦ ?_
    obtain ⟨hseen, rfl⟩ := htemplate
    exact goesBy_last fun _ hlater ↦ ⟨pair.2, hseen.later hlater, rfl, actor, _, hask, rfl, rfl, hmay⟩
  | createProgram id draft =>
    refine .bind (goesBy_loadBoard _ _) fun board _ hboard ↦ goesBy_permit fun hmay ↦ ?_
    obtain ⟨hseen, rfl⟩ := hboard
    exact goesBy_last fun _ hlater ↦ ⟨hseen.later hlater, actor, _, hask, rfl, rfl, hmay⟩
  | updateProgram id draft | deleteProgram id =>
    refine .bind (goesBy_loadProgram _ _) fun pair _ hprogram ↦ goesBy_permit fun hmay ↦ ?_
    obtain ⟨hseen, rfl⟩ := hprogram
    exact goesBy_last fun _ hlater ↦ ⟨pair.2, hseen.later hlater, rfl, actor, _, hask, rfl, rfl, hmay⟩
  | startProgram id column startAt fanOut =>
    refine .bind (goesBy_loadProgram _ _) fun pair _ hprogram ↦ goesBy_permit fun hmay ↦ ?_
    obtain ⟨hseen, rfl⟩ := hprogram
    refine .bind (goesBy_chooseColumn (I := fun t ↦ SawProgram t pair.1 pair.2) hseen _) fun _ _ hcolumn ↦ ?_
    exact goesBy_last fun _ hlater ↦
      ⟨hcolumn.1.later hlater, hcolumn.2, actor, _, hask, rfl, hmay, _, rfl⟩
  | cancelRun id deleteOpen =>
    refine .bind (goesBy_loadRun _ _) fun pair _ hrun ↦ goesBy_permit fun hmay ↦ .check_bind fun hactive ↦ ?_
    obtain ⟨hseen, rfl⟩ := hrun
    exact goesBy_last fun _ hlater ↦ ⟨hseen.later hlater, hactive, actor, _, hask, rfl, rfl, hmay⟩
  | stopRepeat id =>
    refine .bind (goesBy_loadTask _ _) fun pair _ htask ↦ .check_bind fun hrepeats ↦ ?_
    obtain ⟨hseen, rfl, hmember⟩ := htask
    exact goesBy_last fun _ hlater ↦ ⟨hseen.later hlater, hrepeats, actor, _, hask, rfl, rfl, hmember⟩
  | scan payload => exact .bind (goesBy_scan payload hask) fun _ _ _ ↦ Thread.meets_pure.mpr trivial
  | setTimezone timezone => exact goesBy_last fun _ _ ↦ ⟨actor, _, hask, rfl, rfl⟩

end Requests

/-! ### Everything else -/

section Jobs

variable {jobs : List Job} {t : Recorded Store} {task : Task} {board : Board}

/-- What is done for each of a list, with what was found. -/
theorem goesBy_each {α ρ : Type} {f : α → Call ρ} {entries : List α} {φ : α → Store → Prop}
    (hfound : ∀ a ∈ entries, t.Saw (φ a))
    (h : ∀ a ∈ entries, ∀ t : Recorded Store, t.Saw (φ a) → GoesBy jobs (fun _ _ ↦ True) (f a) t) :
    GoesBy jobs (fun _ _ ↦ True) (Thread.each f entries) t := by
  refine (Thread.Meets.each (I := t.Since) (fun a ha t' hlater ↦ ?_) List.prefix_rfl).mono fun _ _ _ ↦ trivial
  exact ((h a ha t' ((hfound a ha).later hlater)).since hlater).mono fun _ _ hthen ↦ hthen.2

/-- A task of a list is stored. -/
theorem row_of_mem_tasksWhere {s : Store} {p : Board → TaskRow → Bool} (h : task ∈ s.tasksWhere p) :
    ∃ row ∈ s.tasks, s.hydrate row = task := by
  obtain ⟨row, hrow, htask⟩ := List.mem_map.mp h
  exact ⟨row, List.mem_of_mem_filter hrow, htask⟩

/-- What a query lists, with what was found about each entry. -/
theorem goesBy_list {α : Type} {query : Query (List α)} {φ : α → Store → Prop}
    (hwork : ∀ outside s, ∃ found, query.work outside s = .ok (found, s) ∧ ∀ a ∈ found, φ a s) :
    GoesBy jobs (fun found t ↦ ∀ a ∈ found, t.Saw (φ a)) (ask query) t := by
  refine goesBy_ask fun outside t' found _ hfound a ha ↦ ?_
  obtain ⟨found', hfound', hall⟩ := hwork outside t'.now
  rw [hfound'] at hfound
  obtain ⟨rfl, -⟩ := Prod.ext_iff.mp (Except.ok.inj hfound)
  exact saw_next (hall a ha)

/-- A task that a list of the scheduler has in it, and its board. -/
theorem goesBy_boardOfListed {φ : Store → Prop} (hstored : ∀ s, φ s → ∃ row ∈ s.tasks, s.hydrate row = task)
    (h : t.Saw φ) :
    GoesBy jobs (fun board t' ↦ SawOn t' board task ∧ t'.Saw φ) (ask (.board task.boardId)) t :=
  (goesBy_boardOf task.boardId h).mono fun _ _ hboard ↦
    ⟨⟨hboard.1, hboard.2.1.mono hstored, hboard.2.2⟩, hboard.2.1⟩

theorem goesBy_archiveFinished (htick : Job.tick ∈ jobs) : GoesBy jobs (fun _ _ ↦ True) archiveFinished t := by
  refine .bind (goesBy_list (φ := fun task s ↦ ∃ now, task ∈ s.tasksDueForArchive now)
    fun outside s ↦ ⟨_, rfl, fun _ hmem ↦ ⟨outside.now, hmem⟩⟩) fun due t' hdue ↦ ?_
  refine .bind (goesBy_each hdue fun task _ t hlisted ↦ ?_) fun _ _ _ ↦ Thread.meets_pure.mpr trivial
  refine .bind (goesBy_boardOfListed (fun _ h ↦ row_of_mem_tasksWhere h.choose_spec) hlisted) fun board t hseen ↦ ?_
  exact goesBy_finally fun _ hlater ↦ ⟨hseen.1.later hlater, htick, hseen.2.later hlater⟩

theorem goesBy_purgeDeleted (htick : Job.tick ∈ jobs) : GoesBy jobs (fun _ _ ↦ True) purgeDeleted t := by
  refine .bind (goesBy_list (φ := fun task s ↦ ∃ now, task ∈ s.tasksDueForPurge now)
    fun outside s ↦ ⟨_, rfl, fun _ hmem ↦ ⟨outside.now, hmem⟩⟩) fun due t' hdue ↦ ?_
  refine .bind (goesBy_each hdue fun task _ t hlisted ↦ ?_) fun _ _ _ ↦ Thread.meets_pure.mpr trivial
  refine .bind (goesBy_boardOfListed (fun _ h ↦ row_of_mem_tasksWhere h.choose_spec) hlisted) fun board t hseen ↦ ?_
  exact goesBy_finally fun _ hlater ↦ ⟨board, task, hseen.1.later hlater, rfl, rfl, htick, hseen.2.later hlater⟩

/-- A repetition that is listed belongs to a task that is stored. -/
theorem row_of_mem_dueRepeats {s : Store} {now : Instant} {spec : RepeatSpec} (h : (task, spec) ∈ s.dueRepeats now) :
    ∃ row ∈ s.tasks, s.hydrate row = task := by
  obtain ⟨r, -, hr⟩ := List.mem_filterMap.mp h
  split_ifs at hr
  obtain ⟨found, hfound, heq⟩ := Option.map_eq_some_iff.mp hr
  obtain ⟨rfl, -⟩ := Prod.ext_iff.mp heq
  exact exists_row_of_task hfound

theorem goesBy_fireRepeats (htick : Job.tick ∈ jobs) : GoesBy jobs (fun _ _ ↦ True) fireRepeats t := by
  refine .bind (goesBy_list (φ := fun due s ↦ ∃ now spec, (due.1, spec) ∈ s.dueRepeats now)
    fun outside s ↦ ⟨_, rfl, fun due hmem ↦ ?_⟩) fun due t' hdue ↦ ?_
  · obtain ⟨entry, hentry, rfl⟩ := List.mem_map.mp hmem
    exact ⟨outside.now, entry.2, hentry⟩
  · refine .bind (goesBy_each hdue fun due _ t hlisted ↦ ?_) fun _ _ _ ↦ Thread.meets_pure.mpr trivial
    obtain ⟨task, next⟩ := due
    refine .bind (goesBy_boardOfListed (fun _ h ↦ row_of_mem_dueRepeats h.choose_spec.choose_spec) hlisted)
      fun board t hseen ↦ ?_
    split_ifs with hdone
    · exact goesBy_finally fun _ hlater ↦
        ⟨board, task, hseen.1.later hlater, rfl, hdone, htick, hseen.2.later hlater⟩
    · cases hfirst : board.firstColumn with
      | none => exact fun _ _ ↦ trivial
      | some column => exact goesBy_last fun _ hlater ↦ ⟨hseen.1.later hlater, by simpa using hdone,
          by rw [hfirst, Option.map_some], htick, hseen.2.later hlater⟩

theorem goesBy_autoStart (htick : Job.tick ∈ jobs) : GoesBy jobs (fun _ _ ↦ True) autoStart t := by
  refine .bind (goesBy_list (φ := fun task s ↦ ∃ now, task ∈ s.autoStartDue now)
    fun outside s ↦ ⟨_, rfl, fun _ hmem ↦ ⟨outside.now, hmem⟩⟩) fun due t' hdue ↦ ?_
  refine .bind (goesBy_each hdue fun task _ t hlisted ↦ ?_) fun _ _ _ ↦ Thread.meets_pure.mpr trivial
  refine .bind (goesBy_boardOfListed (fun _ h ↦ row_of_mem_tasksWhere h.choose_spec) hlisted) fun board t hseen ↦ ?_
  exact .bind (goesBy_attempt fun _ hlater ↦ ⟨hseen.1.later hlater, htick, rfl, rfl, hseen.2.later hlater⟩)
    fun _ _ _ ↦ Thread.meets_pure.mpr trivial

theorem goesBy_tickOnce (htick : Job.tick ∈ jobs) : GoesBy jobs (fun _ _ ↦ True) tickOnce t :=
  .bind (goesBy_archiveFinished htick) fun _ _ _ ↦ .bind (goesBy_purgeDeleted htick) fun _ _ _ ↦
    .bind (goesBy_fireRepeats htick) fun _ _ _ ↦ goesBy_autoStart htick

/-- Whatever is under way makes its updates with what it has seen and may. -/
theorem goesBy_call {job : Job} (hjob : job ∈ jobs) : GoesBy jobs (fun _ _ ↦ True) job.call t := by
  cases job with
  | request actor req => exact goesBy_handle hjob
  | login uid hostTz forceAdmin => exact goesBy_last fun _ _ ↦ hjob
  | tick => exact .bind (goesBy_tickOnce hjob) fun _ _ _ ↦ Thread.meets_pure.mpr trivial
  | importFile file wholeServer clash => exact goesBy_last fun _ _ ↦ hjob

end Jobs

theorem goesBy_serve (s : Store) (jobs : List Job) :
    ∀ thread ∈ (serve s jobs).threads, GoesBy jobs (fun _ _ ↦ True) thread (Recorded.fresh s) := by
  intro thread hthread
  obtain ⟨job, hjob, rfl⟩ := List.mem_map.mp hthread
  exact goesBy_call hjob

/-- The section is warranted by what has happened before it. -/
def WarrantedAfter (jobs : List Job) (past : List Happened) (h : Happened) : Prop :=
  h.body.Warranted jobs ⟨past.map Pool.Happening.before, h.before⟩

theorem eachAfter_warranted (s : Store) (jobs : List Job) (schedule : List (ℕ × Outside)) :
    Pool.EachAfter (WarrantedAfter jobs) ((serve s jobs).log semantics schedule) :=
  Pool.eachAfter_of_meets (fun _ _ _ _ _ ↦ trivial) (goesBy_serve s jobs) schedule

end Taskologic.Daemon
