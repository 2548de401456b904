import Taskologic.Core.Stats
import Taskologic.Daemon.Frames

/-!
# The analytics table

Each task's history, added up, beside what its siblings usually take. Siblings are the tasks stamped out of
one template, those one step of a program has made across every run of it, and the instances of one chain of
repetitions. Finished tasks that have aged into the archive are siblings like any others.

The archiver writes to the trail it archives. `unrewritten_iff` says when this leaves the task's own times
and every average as they were. It does not for a task whose trail ends in the finished column, which is
where the archiver looks: `not_unrewritten_filed` is such a task.
-/

set_option autoImplicit false
set_option relaxedAutoImplicit false

namespace Taskologic.Daemon

open Taskologic.Core Taskologic.Library

/-- The kinds that move a task between columns, and the creation that put it in its first one. -/
def movesBetweenColumns : EventKind → Bool
  | .taskCreated _ | .taskMoved _ _ | .taskArchived _ | .taskRestored _ => true
  | _ => false

/-- The column changes of a task among some events. -/
def changesOf (task : TaskId) (events : List EventRow) : List Transition :=
  (events.filter fun event ↦ event.taskId == some task && movesBetweenColumns event.kind).map fun event ↦
    ⟨event.recordedAt, event.kind.columns.2⟩

/-- Which sibling group a task's average is taken over. -/
inductive SiblingGroup where
  | template (template : TemplateId)
  | chain (root : TaskId)
  /-- One step of one program, across every run of it. -/
  | step (identity : Text)
  deriving DecidableEq, Repr

/-- Where a task stands. -/
inductive TaskState where
  | unfinished
  | finished
  | archived
  | deleted
  deriving DecidableEq, Repr

def stateOf (row : TaskRow) (board : Board) : TaskState :=
  if row.isDeleted then .deleted
  else if row.isArchived then .archived
  else if row.columnId = board.finishedCol then .finished
  else .unfinished

structure AnalyticsFilter where
  showUnfinished : Bool
  showArchived : Bool
  showDeleted : Bool
  assignedToMe : Bool
  createdByMe : Bool
  repeatingOnly : Bool
  since : Option Instant
  «until» : Option Instant
  deriving DecidableEq, Repr

/-- One row of the table. Times are in whole seconds. -/
structure AnalyticsRow where
  taskId : TaskId
  boardId : BoardId
  boardName : Text
  shortId : ShortId
  title : Text
  state : TaskState
  plannedStart : Option Instant
  plannedDue : Option Instant
  startedAt : Option Instant
  timeTakenSecs : Option ℤ
  wallClockSecs : Option ℤ
  averageSecs : Option ℤ
  samples : ℕ
  excluded : Bool
  deriving DecidableEq, Repr

/-- What a task contributes to an average. Only finished work says how long this kind of work takes. -/
def sampleOf (t : Timings) : Option ℤ := t.finishedAt.bind fun _ ↦ t.timeTaken

/-- What stands for the program behind a run: the program's id while it exists, its name once it is gone. -/
def runIdentity (run : Run) : Text :=
  match run.programId with
  | some program => text "program:" ++ decimal program
  | none => text "name:" ++ run.name

/-- The oldest instance in a repetition chain. A corrupted log must not hang the daemon. -/
def chainRoot (parent : TaskId → Option TaskId) : ℕ → TaskId → TaskId
  | 0, task => task
  | rounds + 1, task => match parent task with
    | some next => chainRoot parent rounds next
    | none => task

/-- When a task is listed. -/
def listedAt (row : TaskRow) : Instant := (row.finishedAt.or row.archivedAt).getD row.createdAt

/-- The last first. -/
def ListedBefore (a b : TaskRow) : Prop := listedAt b < listedAt a ∨ listedAt a = listedAt b ∧ b.id ≤ a.id

instance : DecidableRel ListedBefore := fun a b ↦
  inferInstanceAs (Decidable (listedAt b < listedAt a ∨ listedAt a = listedAt b ∧ b.id ≤ a.id))

namespace Store

variable (s : Store)

/-- Every column change of a task, in the order of the log. -/
def columnChanges (task : TaskId) : List Transition := changesOf task s.events

/-- Every column change of a task, oldest first. -/
def transitionsFor (task : TaskId) : List Transition :=
  (s.columnChanges task).insertionSort fun a b ↦ a.recordedAt ≤ b.recordedAt

/-- A task's times, with the roles its board has. -/
def timingsOf (row : TaskRow) (now : Instant) : Option Timings :=
  (s.board row.boardId).map fun board ↦
    timings (s.transitionsFor row.id) board.startedCol board.finishedCol now

def averageOver (rows : List TaskRow) (now : Instant) : Option (ℤ × ℕ) :=
  average (rows.filterMap fun row ↦ (s.timingsOf row now).bind sampleOf)

/-- How long the tasks stamped out of a template have taken, and over how many of them. -/
def templateAverage (template : TemplateId) (now : Instant) : Option (ℤ × ℕ) :=
  s.averageOver (s.tasks.filter fun row ↦
    row.templateId == some template && !row.excludeFromStats && !row.isDeleted) now

/-- The same for the tasks a program step has made across every run of the program. -/
def stepAverage (identity step : Text) (now : Instant) : Option (ℤ × ℕ) :=
  s.averageOver (s.tasks.filter fun row ↦
    (s.taskLink row.id).any (fun link ↦
      link.step == step && (s.run link.run).any fun run ↦ runIdentity run == identity) &&
      !row.excludeFromStats && !row.isDeleted) now

/-- What each child of a repetition chain was repeated from, on the boards the reader may see. -/
def repeatParents (uid : Uid) : List (TaskId × TaskId) :=
  s.events.filterMap fun event ↦
    if (s.board event.boardId).any fun board ↦ board.isMember uid then
      match event.taskId, event.kind with
      | some child, .repeatSpawned fromTask => some (child, fromTask)
      | _, _ => none
    else none

/-- What the task was repeated from. The last word counts. -/
def repeatParent (uid : Uid) (task : TaskId) : Option TaskId :=
  (s.repeatParents uid).reverse.lookup task

/-- Anything that is not in a group is a one off with nothing to compare it to. -/
def siblingGroup (uid : Uid) (row : TaskRow) : Option SiblingGroup :=
  match (s.programLink row.id).bind fun link ↦ (s.run link.run).map fun run ↦ (runIdentity run, link.step) with
  | some (identity, step) => some (.step (identity ++ text "/" ++ step))
  | none => match row.templateId with
    | some template => some (.template template)
    | none =>
      if (s.repeatParents uid).any fun pair ↦ pair.1 == row.id || pair.2 == row.id then
        some (.chain (chainRoot (s.repeatParent uid) 10000 row.id))
      else none

/-- The tasks the reader may see, on one board or on all of them, the last finished first. -/
def analyticsCandidates (uid : Uid) (board : Option BoardId) : List TaskRow :=
  (s.tasks.filter fun row ↦ (s.board row.boardId).any (fun b ↦ b.isMember uid) &&
    board.all fun id ↦ row.boardId == id).insertionSort ListedBefore

/-- The average over a group, taken before the table is narrowed. -/
def siblingAverage (uid : Uid) (board : Option BoardId) (group : SiblingGroup) (now : Instant) :
    Option (ℤ × ℕ) :=
  s.averageOver ((s.analyticsCandidates uid board).filter fun row ↦
    !row.excludeFromStats && s.siblingGroup uid row == some group) now

/-- The row of the table a task has. -/
def analyticsRow (uid : Uid) (board : Option BoardId) (now : Instant) (row : TaskRow) (home : Board) :
    AnalyticsRow :=
  let t := timings (s.transitionsFor row.id) home.startedCol home.finishedCol now
  let average := (s.siblingGroup uid row).bind fun group ↦ s.siblingAverage uid board group now
  { taskId := row.id
    boardId := row.boardId
    boardName := home.name
    shortId := row.shortId
    title := row.title
    state := stateOf row home
    plannedStart := row.startAt
    plannedDue := row.dueAt
    startedAt := t.startedAt
    timeTakenSecs := t.timeTaken
    wallClockSecs := t.wallClock
    averageSecs := average.map fun (total, _) ↦ total.tdiv (10 ^ 9)
    samples := average.elim 0 Prod.snd
    excluded := row.excludeFromStats }

/-- What the reader asked to see. -/
def isKept (uid : Uid) (filter : AnalyticsFilter) (now : Instant) (row : TaskRow) (home : Board) : Bool :=
  let t := timings (s.transitionsFor row.id) home.startedCol home.finishedCol now
  let finished := t.finishedAt.getD row.createdAt
  (match stateOf row home with
    | .finished => true
    | .unfinished => filter.showUnfinished
    | .archived => filter.showArchived
    | .deleted => filter.showDeleted) &&
  (!(filter.assignedToMe || filter.createdByMe) ||
    filter.assignedToMe && s.assignees.contains (row.id, uid) || filter.createdByMe && row.createdBy == uid) &&
  !(filter.repeatingOnly && (s.siblingGroup uid row).isNone) &&
  !filter.since.any (fun since ↦ decide (finished < since)) &&
  !filter.until.any fun limit ↦ decide (limit < finished)

/-- The table. Timings are worked out for every task the reader can see and only then filtered. -/
def analyticsRows (uid : Uid) (board : Option BoardId) (filter : AnalyticsFilter) (now : Instant) :
    List AnalyticsRow :=
  (s.analyticsCandidates uid board).filterMap fun row ↦ (s.board row.boardId).bind fun home ↦
    if s.isKept uid filter now row home then some (s.analyticsRow uid board now row home) else none

/-- The times of the task with this id. -/
def taskTimings (task : TaskId) (now : Instant) : Option Timings :=
  (s.taskRow task).bind fun row ↦ s.timingsOf row now

end Store

/-! ### What the archiver leaves -/

/-- The row of a task as it goes into the archive. -/
def fileRow (now : Instant) (row : TaskRow) : TaskRow :=
  { row with archivedAt := now, archivedFromCol := row.columnId, version := row.version + 1 }

/-- What the archiver leaves. -/
def Store.filed (s : Store) (board : BoardId) (task : Task) (now : Instant) : Store :=
  { s.modifyTask task.id (fileRow now) with
    events := s.events ++ [⟨board, some task.id, none, .taskArchived task.columnId, now⟩] }

theorem archive_eq_ok {outside : Outside} {board : Board} {task archived : Task} {s s' : Store}
    (h : archive outside board task s = .ok (archived, s')) : s' = s.filed board.id task outside.now := by
  obtain ⟨found, s₁, hfile, hrest⟩ := Tx.bind_eq_ok.mp h
  obtain ⟨_, s₂, hwrite, hload⟩ := Tx.bind_eq_ok.mp hfile
  obtain ⟨_, rfl⟩ := Prod.mk.inj (Tx.write_eq_ok.mp hwrite)
  obtain ⟨found, hfound, hsame⟩ := requireTask_eq_ok.mp hload
  obtain ⟨rfl, rfl⟩ := Prod.mk.inj hsame
  obtain ⟨_, s₂, hrecord, hdone⟩ := Tx.bind_eq_ok.mp hrest
  obtain ⟨_, rfl⟩ := Prod.mk.inj (Tx.write_eq_ok.mp hrecord)
  obtain ⟨-, rfl⟩ := Prod.mk.inj (Tx.pure_eq_ok.mp hdone)
  rw [Store.id_of_task hfound]
  rfl

section Filed

variable {s : Store} {board : BoardId} {task : Task} {now : Instant}

/-- The trail of a task up to a moment, and what is on it after that. -/
def Store.trailUpTo (s : Store) (task : TaskId) (now : Instant) : List Transition :=
  (s.transitionsFor task).takeWhile fun t ↦ decide (t.recordedAt ≤ now)

def Store.trailAfter (s : Store) (task : TaskId) (now : Instant) : List Transition :=
  (s.transitionsFor task).dropWhile fun t ↦ decide (t.recordedAt ≤ now)

theorem trailUpTo_append_trailAfter : s.trailUpTo task.id now ++ s.trailAfter task.id now =
    s.transitionsFor task.id := List.takeWhile_append_dropWhile

/-- Archiving comes on the trail behind what was recorded by then. -/
theorem transitionsFor_filed : (s.filed board task now).transitionsFor task.id =
    s.trailUpTo task.id now ++ ⟨now, none⟩ :: s.trailAfter task.id now := by
  have hlast : (s.filed board task now).columnChanges task.id = s.columnChanges task.id ++ [⟨now, none⟩] := by
    simp [Store.columnChanges, changesOf, Store.filed, movesBetweenColumns, EventKind.columns]
  rw [Store.transitionsFor, hlast, insertionSort_concat Transition.recordedAt]
  rfl

theorem transitionsFor_filed_of_ne {other : TaskId} (hother : other ≠ task.id) :
    (s.filed board task now).transitionsFor other = s.transitionsFor other := by
  simp [Store.transitionsFor, Store.columnChanges, changesOf, Store.filed, Store.modifyTask, hother.symm]

/-- What the archiver makes of a row. -/
def refile (task : TaskId) (now : Instant) (row : TaskRow) : TaskRow :=
  if row.id = task then fileRow now row else row

theorem tasks_filed : (s.filed board task now).tasks = s.tasks.map (refile task.id now) := rfl

/-- What does not change in the row that goes into the archive changes in none. -/
theorem apply_refile {α : Type} (field : TaskRow → α)
    (hfield : ∀ (now : Instant) (row : TaskRow), field (fileRow now row) = field row)
    (task : TaskId) (now : Instant) (row : TaskRow) : field (refile task now row) = field row := by
  unfold refile
  split_ifs
  · exact hfield now row
  · rfl

theorem taskRow_filed (id : TaskId) : (s.filed board task now).taskRow id =
    (s.taskRow id).map (refile task.id now) :=
  find?_map_key (fun row ↦ apply_refile TaskRow.id (fun _ _ ↦ rfl) task.id now row) s.tasks id

/-- No chain of repetitions is told of by the archiver. -/
theorem siblingGroup_filed (uid : Uid) (row : TaskRow) :
    (s.filed board task now).siblingGroup uid (refile task.id now row) = s.siblingGroup uid row := by
  have hparents : (s.filed board task now).repeatParents uid = s.repeatParents uid := by
    simp [Store.repeatParents, Store.filed, Store.board, Store.modifyTask]
    rfl
  have hparent : (s.filed board task now).repeatParent uid = s.repeatParent uid := by
    funext id
    rw [Store.repeatParent, hparents]
    rfl
  have hid : (refile task.id now row).id = row.id := apply_refile _ (fun _ _ ↦ rfl) _ _ row
  have htemplate : (refile task.id now row).templateId = row.templateId :=
    apply_refile _ (fun _ _ ↦ rfl) _ _ row
  unfold Store.siblingGroup
  rw [hparents, hparent, hid, htemplate]
  rfl

/-- Rows with the same times have the same average. -/
theorem averageOver_map {s s' : Store} {rows : List TaskRow} {f : TaskRow → TaskRow} {now : Instant}
    (h : ∀ row ∈ rows, s'.timingsOf (f row) now = s.timingsOf row now) :
    s'.averageOver (rows.map f) now = s.averageOver rows now := by
  rw [Store.averageOver, Store.averageOver, List.filterMap_map]
  congr 1
  refine List.filterMap_congr fun row hrow ↦ ?_
  rw [Function.comp_apply, h row hrow]

/-- The candidates are the same, the archived one among them where it was. -/
theorem analyticsCandidates_filed (hfinished : ∀ row ∈ s.tasks, row.id = task.id → row.finishedAt.isSome = true)
    (uid : Uid) (on : Option BoardId) : (s.filed board task now).analyticsCandidates uid on =
      (s.analyticsCandidates uid on).map (refile task.id now) := by
  have hlisted : ∀ row ∈ s.tasks, listedAt (refile task.id now row) = listedAt row := by
    intro row hrow
    unfold refile
    split_ifs with hid
    · obtain ⟨finished, hfinished⟩ := Option.isSome_iff_exists.mp (hfinished row hrow hid)
      simp [listedAt, fileRow, hfinished]
    · rfl
  have hid (row : TaskRow) : (refile task.id now row).id = row.id := apply_refile _ (fun _ _ ↦ rfl) _ _ row
  have hboard (row : TaskRow) : (refile task.id now row).boardId = row.boardId :=
    apply_refile _ (fun _ _ ↦ rfl) _ _ row
  unfold Store.analyticsCandidates
  rw [tasks_filed, List.filter_map, List.map_insertionSort ListedBefore ListedBefore]
  · congr 2
    refine List.filter_congr fun row _ ↦ ?_
    rw [Function.comp_apply, hboard]
    rfl
  · intro a ha b hb
    rw [ListedBefore, ListedBefore, hid, hid, hlisted a (List.mem_filter.mp ha).1,
      hlisted b (List.mem_filter.mp hb).1]

end Filed

/-! ### Nothing is rewritten -/

/-- From a moment on a task's times are in the second store what they are in the first, and so are all the
averages. -/
structure Unrewritten (s s' : Store) (task : TaskId) (since : Instant) : Prop where
  times : ∀ now ≥ since, s'.taskTimings task now = s.taskTimings task now
  templates : ∀ now ≥ since, ∀ template, s'.templateAverage template now = s.templateAverage template now
  steps : ∀ now ≥ since, ∀ identity step, s'.stepAverage identity step now = s.stepAverage identity step now
  siblings : ∀ now ≥ since, ∀ uid board group,
    s'.siblingAverage uid board group now = s.siblingAverage uid board group now

section Unrewritten

variable {s : Store} {board : BoardId} {task : Task} {now later : Instant}

theorem averageOver_filed {p q : TaskRow → Bool} (hp : ∀ row, q (refile task.id now row) = p row)
    (htimes : ∀ row ∈ s.tasks,
      (s.filed board task now).timingsOf (refile task.id now row) later = s.timingsOf row later) :
    (s.filed board task now).averageOver ((s.filed board task now).tasks.filter q) later =
      s.averageOver (s.tasks.filter p) later := by
  rw [tasks_filed, List.filter_map, averageOver_map]
  · congr 1
    exact List.filter_congr fun row _ ↦ hp row
  · exact fun row hrow ↦ htimes row (List.mem_filter.mp hrow).1

/-- Where no row has other times, no average changes. -/
theorem unrewritten_of_timingsOf (hfinished : ∀ row ∈ s.tasks, row.id = task.id → row.finishedAt.isSome = true)
    (htimes : ∀ later ≥ now, ∀ row ∈ s.tasks,
      (s.filed board task now).timingsOf (refile task.id now row) later = s.timingsOf row later) :
    Unrewritten s (s.filed board task now) task.id now where
  times later hlater := by
    rw [Store.taskTimings, taskRow_filed, Store.taskTimings]
    cases hrow : s.taskRow task.id with
    | none => rfl
    | some row => exact htimes later hlater row (List.mem_of_find?_eq_some hrow)
  templates later hlater template := averageOver_filed
    (fun row ↦ by
      unfold refile
      split_ifs <;> rfl) (htimes later hlater)
  steps later hlater identity step := averageOver_filed
    (fun row ↦ by
      unfold refile
      split_ifs <;> rfl) (htimes later hlater)
  siblings later hlater uid on group := by
    rw [Store.siblingAverage, analyticsCandidates_filed hfinished, List.filter_map, averageOver_map]
    · congr 1
      refine List.filter_congr fun row _ ↦ ?_
      have hexcluded : (refile task.id now row).excludeFromStats = row.excludeFromStats :=
        apply_refile _ (fun _ _ ↦ rfl) _ _ row
      rw [Function.comp_apply, siblingGroup_filed, hexcluded]
    · intro row hrow
      have hcandidate := (List.mem_filter.mp hrow).1
      rw [Store.analyticsCandidates, List.mem_insertionSort] at hcandidate
      exact htimes later hlater row (List.mem_filter.mp hcandidate).1

end Unrewritten

theorem unrewritten_iff {outside : Outside} {board home : Board} {task archived : Task} {s s' : Store}
    {row : TaskRow} (hkeyed : Keyed TaskRow.id s.tasks) (hrow : s.taskRow task.id = some row)
    (hhome : s.board row.boardId = some home) (hfinished : row.finishedAt.isSome = true)
    (harchive : archive outside board task s = .ok (archived, s')) :
    Unrewritten s s' task.id outside.now ↔
      whereabouts (s.trailUpTo task.id outside.now) ≠ some home.startedCol ∧
      (s.trailAfter task.id outside.now = [] →
        whereabouts (s.trailUpTo task.id outside.now) ≠ some home.finishedCol) := by
  have hafter : ∀ t ∈ s.trailAfter task.id outside.now, outside.now < t.recordedAt :=
    fun _ ↦ lt_of_mem_dropWhile Transition.recordedAt
  rw [archive_eq_ok harchive, ← timings_archived_iff hafter]
  have hown (later : Instant) : s.timingsOf row later =
      some (timings (s.trailUpTo task.id outside.now ++ s.trailAfter task.id outside.now) home.startedCol
        home.finishedCol later) := by
    rw [trailUpTo_append_trailAfter, Store.timingsOf, hhome, Option.map_some, Store.id_of_taskRow hrow]
  have hown' (later : Instant) :
      (s.filed board.id task outside.now).timingsOf (refile task.id outside.now row) later =
        some (timings (s.trailUpTo task.id outside.now ++ ⟨outside.now, none⟩ ::
          s.trailAfter task.id outside.now) home.startedCol home.finishedCol later) := by
    have hid := apply_refile TaskRow.id (fun _ _ ↦ rfl) task.id outside.now row
    have hboard := apply_refile TaskRow.boardId (fun _ _ ↦ rfl) task.id outside.now row
    have hhome' : (s.filed board.id task outside.now).board row.boardId = some home := hhome
    rw [Store.timingsOf, hid, hboard, hhome', Option.map_some, Store.id_of_taskRow hrow, transitionsFor_filed]
  have hunique : ∀ other ∈ s.tasks, other.id = task.id → other = row := by
    intro other hmem hid
    have hfound := hkeyed.find?_eq_some_iff.mpr ⟨hmem, hid⟩
    exact Option.some.inj (hfound.symm.trans hrow)
  constructor
  · intro h later hlater
    have htimes := h.times later hlater
    rw [Store.taskTimings, taskRow_filed, Store.taskTimings, hrow] at htimes
    rw [Option.map_some, Option.bind_some, Option.bind_some, hown, hown'] at htimes
    exact Option.some.inj htimes
  · intro h
    refine unrewritten_of_timingsOf (fun other hmem hid ↦ by rwa [hunique other hmem hid]) ?_
    intro later hlater other hmem
    by_cases hid : other.id = task.id
    · rw [hunique other hmem hid, hown, hown', h later hlater]
    · rw [refile, if_neg hid, Store.timingsOf, transitionsFor_filed_of_ne hid]
      rfl

/-- A task stamped out of a template, started and finished, on a board that archives after a week. -/
def finishedWork : Store :=
  { Store.empty with
    boards := [boardWithMembers 1 [1, 2]]
    tasks := [{ newTaskRow 1 (.fromIndex 0) 0 (boardWithMembers 1 [1, 2]) 4 TaskDraft.default 1 (some 7) 0 with
      finishedAt := some 100 }]
    events := [⟨1, some 1, some 1, .taskCreated (some 1), 0⟩, ⟨1, some 1, none, .taskMoved 1 2, 10⟩,
      ⟨1, some 1, none, .taskMoved 2 4, 100⟩]
    nextBoard := 2
    nextColumn := 5
    nextTask := 2
    nextTemplate := 8 }

/-- The task as the archiver finds it. -/
def finishedTask : Task := (finishedWork.task 1).get (by decide)

/-- The clock has been put back to before the task was started, and the archiver is at work again: nothing is
lost. -/
theorem unrewritten_filed_early :
    Unrewritten finishedWork (finishedWork.filed 1 finishedTask 5) 1 5 := by
  have harchive : archive (.still 5) (boardWithMembers 1 [1, 2]) finishedTask finishedWork =
      .ok (_, finishedWork.filed 1 finishedTask 5) := rfl
  have hhome : finishedWork.board finishedTask.boardId = some (boardWithMembers 1 [1, 2]) := rfl
  exact (unrewritten_iff (by decide) rfl hhome rfl harchive).mpr (by decide)

/-- A week after the task was finished it is archived. Its finish is gone, its wall clock runs on, and the
average of its template is gone with it. -/
theorem not_unrewritten_filed :
    finishedTask ∈ finishedWork.tasksDueForArchive 1000000 ∧
      (archive (.still 1000000) (boardWithMembers 1 [1, 2]) finishedTask finishedWork).map Prod.snd =
        .ok (finishedWork.filed 1 finishedTask 1000000) ∧
      finishedWork.taskTimings 1 2000000 = some ⟨some 10, some 100, some 90, some 90⟩ ∧
      (finishedWork.filed 1 finishedTask 1000000).taskTimings 1 2000000 =
        some ⟨some 10, none, some 90, some 1999990⟩ ∧
      finishedWork.templateAverage 7 2000000 = some (90 * 10 ^ 9, 1) ∧
      (finishedWork.filed 1 finishedTask 1000000).templateAverage 7 2000000 = none :=
  ⟨by decide, rfl, by decide, by decide, by decide, by decide⟩

end Taskologic.Daemon
