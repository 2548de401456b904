import Taskologic.Daemon.Requests

/-!
# Archiving and purging

The scheduler archives what is finished and removes what was deleted long enough ago, and a request removes
what is archived. Each goes by a task as an earlier section of the same request or pass found it
(`Section.offers`), and writes without looking at the task again. So a task is due when it is taken away
as long as what the decision goes by has not changed in between: `takesDue_of_unchanged`. A task that is
restored after it was listed is removed for good: `not_takesDue_restored`.
-/

set_option autoImplicit false
set_option relaxedAutoImplicit false

namespace Taskologic.Daemon

open Taskologic.Core Taskologic.Library

/-! ### What is taken away -/

/-- How a task is taken away without being deleted by somebody. -/
inductive Fate where
  /-- Into the archive, by the scheduler. -/
  | archive
  /-- For good, by the scheduler. -/
  | expire
  /-- For good, by somebody. -/
  | remove
  deriving DecidableEq, Repr

/-- A row may be taken away so. -/
def Store.due (s : Store) (now : Instant) (row : TaskRow) : Fate → Bool
  | .archive => (s.board row.boardId).any fun board ↦
      !row.isArchived && row.columnId == board.finishedCol &&
        row.finishedAt.any fun finished ↦ decide (finished + board.archiveAfterSecs ≤ now)
  | .expire => (s.board row.boardId).any fun board ↦
      row.deletedAt.any fun deleted ↦ decide (deleted + board.purgeDeletedAfterSecs ≤ now)
  | .remove => row.isArchived

/-- The task a section takes away, and how. -/
def Section.takes : {α : Type} → Section α → Option (Fate × TaskId)
  | _, .write (.archive _ task) => some (.archive, task.id)
  | _, .write (.purge none _ task) => some (.expire, task)
  | _, .write (.purge (some _) _ task) => some (.remove, task)
  | _, _ => none

/-- The tasks, as a section finds them, that may be taken away so. -/
def Section.offers (fate : Fate) : {α : Type} → Section α → Except AppError α → List Task
  | _, .read .tasksDueForArchive, .ok due => if fate = .archive then due else []
  | _, .read .tasksDueForPurge, .ok due => if fate = .expire then due else []
  | _, .read (.task _), .ok task => if fate = .remove ∧ task.isArchived = true then [task] else []
  | _, _, _ => []

namespace Happened

/-- The task is due when it is taken away, if it is there. -/
def TakesDue (h : Happened) : Prop :=
  ∀ taken ∈ h.body.takes, ∀ row ∈ h.before.taskRow taken.2, h.before.due h.input.now row taken.1 = true

instance (h : Happened) : Decidable (TakesDue h) :=
  inferInstanceAs (Decidable (∀ taken ∈ h.body.takes, ∀ row ∈ h.before.taskRow taken.2, _ = true))

def offers (r : Happened) (fate : Fate) : List Task := r.body.offers fate (r.answer semantics)

/-- What the decision goes by is as it was: the columns of the row and the settings of its board. For the
scheduler the clock has not gone back either. -/
def AsFound (r h : Happened) (task : Task) (row : TaskRow) : Fate → Prop
  | .archive => r.input.now ≤ h.input.now ∧ row.archivedAt = task.archivedAt ∧
      row.columnId = task.columnId ∧ row.finishedAt = task.finishedAt ∧
      (h.before.board row.boardId).map (fun board ↦ (board.finishedCol, board.archiveAfterSecs)) =
        (r.before.board task.boardId).map fun board ↦ (board.finishedCol, board.archiveAfterSecs)
  | .expire => r.input.now ≤ h.input.now ∧ row.deletedAt = task.deletedAt ∧
      (h.before.board row.boardId).map Board.purgeDeletedAfterSecs =
        (r.before.board task.boardId).map Board.purgeDeletedAfterSecs
  | .remove => row.archivedAt = task.archivedAt

instance (r h : Happened) (task : Task) (row : TaskRow) (fate : Fate) :
    Decidable (AsFound r h task row fate) := by
  cases fate
  · exact inferInstanceAs (Decidable (_ ∧ _ ∧ _ ∧ _ ∧ _))
  · exact inferInstanceAs (Decidable (_ ∧ _ ∧ _))
  · exact inferInstanceAs (Decidable (_ = _))

/-- The task that is taken away is as the same request or pass found it. -/
def Unchanged (past : List Happened) (h : Happened) : Prop :=
  ∀ taken ∈ h.body.takes, ∀ r ∈ past, ∀ task ∈ offers r taken.1, task.id = taken.2 →
    ∀ row ∈ h.before.taskRow taken.2, AsFound r h task row taken.1

instance (past : List Happened) (h : Happened) : Decidable (Unchanged past h) :=
  inferInstanceAs (Decidable (∀ taken ∈ h.body.takes, ∀ r ∈ past, ∀ task ∈ offers r taken.1,
    task.id = taken.2 → ∀ row ∈ h.before.taskRow taken.2, AsFound r h task row taken.1))

end Happened

/-! ### From the list to the section that writes -/

/-- A row that is as it was found is due if it was. -/
theorem due_of_asFound {r h : Happened} {task : Task} {row : TaskRow} {fate : Fate}
    (hfound : r.before.due r.input.now task.toTaskRow fate = true)
    (hsame : Happened.AsFound r h task row fate) :
    h.before.due h.input.now row fate = true := by
  cases fate with
  | archive =>
    obtain ⟨hclock, harchived, hcolumn, hfinished, hboard⟩ := hsame
    obtain ⟨board, hstored, hdue⟩ := (Option.any_eq_true _ _).mp hfound
    rw [hstored, Option.map_some, Option.map_eq_some_iff] at hboard
    obtain ⟨board', hstored', hsettings⟩ := hboard
    obtain ⟨hcol, hdelay⟩ := Prod.mk.inj hsettings
    obtain ⟨hlive, hlate⟩ := Bool.and_eq_true_iff.mp hdue
    obtain ⟨finished, hwhen, hpast⟩ := (Option.any_eq_true _ _).mp hlate
    rw [Store.due, hstored', Option.any_some, TaskRow.isArchived, harchived, hcolumn, hcol, hfinished, hwhen,
      Option.any_some, hdelay, Bool.and_eq_true_iff, decide_eq_true_iff]
    exact ⟨hlive, (of_decide_eq_true hpast).trans hclock⟩
  | expire =>
    obtain ⟨hclock, hdeleted, hboard⟩ := hsame
    obtain ⟨board, hstored, hdue⟩ := (Option.any_eq_true _ _).mp hfound
    rw [hstored, Option.map_some, Option.map_eq_some_iff] at hboard
    obtain ⟨board', hstored', hdelay⟩ := hboard
    obtain ⟨deleted, hwhen, hpast⟩ := (Option.any_eq_true _ _).mp hdue
    rw [Store.due, hstored', Option.any_some, hdeleted, hwhen, Option.any_some, hdelay, decide_eq_true_iff]
    exact (of_decide_eq_true hpast).trans hclock
  | remove =>
    rw [Store.due, TaskRow.isArchived, show row.archivedAt = task.archivedAt from hsame]
    exact hfound

/-- What a list of the scheduler holds satisfies its condition. -/
theorem mem_tasksWhere {s : Store} {p : Board → TaskRow → Bool} {task : Task} (h : task ∈ s.tasksWhere p) :
    (s.board task.boardId).any (fun board ↦ p board task.toTaskRow) = true := by
  obtain ⟨row, hrow, rfl⟩ := List.mem_map.mp h
  exact (List.mem_filter.mp hrow).2

/-- What a section offers is due by its own clock. -/
theorem due_of_offers {r : Happened} {fate : Fate} {task : Task} (h : task ∈ Happened.offers r fate) :
    r.before.due r.input.now task.toTaskRow fate = true := by
  obtain ⟨body, outside, s⟩ := r
  unfold Happened.offers Pool.Happening.answer at h
  cases body with
  | write update => cases h
  | read query =>
    cases query with
    | tasksDueForArchive =>
      change task ∈ (if fate = .archive then s.tasksDueForArchive outside.now else []) at h
      split_ifs at h with hfate
      · subst hfate
        exact mem_tasksWhere h
      · cases h
    | tasksDueForPurge =>
      change task ∈ (if fate = .expire then s.tasksDueForPurge outside.now else []) at h
      split_ifs at h with hfate
      · subst hfate
        exact mem_tasksWhere h
      · cases h
    | task id =>
      dsimp only at h ⊢
      generalize hanswer : (semantics.run (.read (.task id)) outside s).1 = answer at h
      cases answer with
      | error error => cases h
      | ok found =>
        change task ∈ (if fate = .remove ∧ found.isArchived = true then [found] else []) at h
        split_ifs at h with hfate
        · rw [List.mem_singleton.mp h, hfate.1]
          exact hfate.2
        · cases h
    | _ => cases h

/-! ### Every request goes by what it has found -/

/-- What is taken away was offered to the same request or pass. -/
def Offered (past : List Happened) (α : Type) (body : Section α) : Prop :=
  ∀ taken ∈ body.takes, ∃ r ∈ past, ∃ task ∈ Happened.offers r taken.1, task.id = taken.2

theorem offered_of_routine (past : List Happened) (α : Type) (body : Section α) (h : body.routine = true) :
    Offered past α body := by
  intro taken htaken
  cases body with
  | read query => cases htaken
  | write update => cases update <;> first | (cases htaken; done) | cases h

theorem follows_of_routine {ρ : Type} {call : Call ρ} (h : Routine call) (past : List Happened) :
    call.Follows semantics Offered (fun _ _ ↦ True) past := h.follows offered_of_routine

/-- A read that has been answered so. -/
def Has (past : List Happened) {α : Type} (query : Query α) (a : α) : Prop :=
  ∃ r ∈ past, ∃ (outside : Outside) (s : Store), r = ⟨.read query, outside, s⟩ ∧
    (semantics.run (.read query) outside s).1 = .ok a

theorem Has.later {past later : List Happened} {α : Type} {query : Query α} {a : α} (h : Has past query a) :
    Has (past ++ later) query a := by
  obtain ⟨r, hr, hsame⟩ := h
  exact ⟨r, List.mem_append_left _ hr, hsame⟩

theorem follows_ask {α : Type} (query : Query α) (past : List Happened) :
    (ask query).Follows semantics Offered (fun a past ↦ Has past query a) past :=
  Thread.follows_call (fun _ h ↦ nomatch h) fun outside s _ ha ↦
    ⟨_, List.mem_append_right _ (List.mem_singleton_self _), outside, s, rfl, ha⟩

/-- A section that takes away what was offered. -/
theorem follows_run {α : Type} {update : Update α} {past : List Happened} {fate : Fate} {id : TaskId}
    (htakes : (Section.write update).takes = some (fate, id))
    (hoffered : ∃ r ∈ past, ∃ task ∈ Happened.offers r fate, task.id = id) :
    (run update).Follows semantics Offered (fun _ _ ↦ True) past := by
  refine Thread.follows_call (fun taken htaken ↦ ?_) fun _ _ _ _ ↦ trivial
  obtain rfl := Option.some.inj (htakes.symm.trans htaken)
  exact hoffered

theorem follows_archiveFinished (past : List Happened) :
    archiveFinished.Follows semantics Offered (fun _ _ ↦ True) past := by
  refine .bind (follows_ask _ _) fun due later hdue ↦
    .bind (.each fun task htask more ↦ ?_) fun _ _ _ ↦ fun _ _ ↦ trivial
  refine .bind ((follows_ask _ _).mono fun _ _ _ ↦ trivial) fun board rest _ ↦ follows_run rfl ?_
  obtain ⟨r, hr, outside, s, rfl, hanswer⟩ := hdue
  refine ⟨_, List.mem_append_left _ (List.mem_append_left _ hr), task, ?_, rfl⟩
  unfold Happened.offers Pool.Happening.answer
  rw [hanswer]
  exact htask

theorem follows_purgeDeleted (past : List Happened) :
    purgeDeleted.Follows semantics Offered (fun _ _ ↦ True) past := by
  refine .bind (follows_ask _ _) fun due later hdue ↦
    .bind (.each fun task htask more ↦ ?_) fun _ _ _ ↦ fun _ _ ↦ trivial
  refine .bind ((follows_ask _ _).mono fun _ _ _ ↦ trivial) fun board rest _ ↦ follows_run rfl ?_
  obtain ⟨r, hr, outside, s, rfl, hanswer⟩ := hdue
  refine ⟨_, List.mem_append_left _ (List.mem_append_left _ hr), task, ?_, rfl⟩
  unfold Happened.offers Pool.Happening.answer
  rw [hanswer]
  exact htask

theorem follows_tickOnce (past : List Happened) :
    tickOnce.Follows semantics Offered (fun _ _ ↦ True) past :=
  .bind (follows_archiveFinished _) fun _ _ _ ↦ .bind (follows_purgeDeleted _) fun _ _ _ ↦
    .bind (follows_of_routine routine_fireRepeats _) fun _ _ _ ↦ follows_of_routine routine_autoStart _

/-- A request that purges has found the task archived. -/
theorem follows_purgeTask (actor : Actor) (id : TaskId) (past : List Happened) :
    (handle actor (.purgeTask id)).Follows semantics Offered (fun _ _ ↦ True) past := by
  have hload : (loadTask actor id).Follows semantics Offered
      (fun pair past ↦ Has past (.task id) pair.2) past := by
    refine .bind (follows_ask _ _) fun task later htask ↦
      .bind ((follows_ask _ _).mono fun _ _ _ ↦ trivial) fun board later _ ↦
        .bind (M := fun _ _ ↦ True) (fun _ _ ↦ trivial) fun _ later _ ↦ Thread.follows_pure.mpr ?_
    exact htask.later.later
  refine .bind hload fun pair later hpair ↦
    .bind (M := fun _ _ ↦ True) (fun _ _ ↦ trivial) fun _ later _ ↦
      .bind (M := fun _ _ ↦ pair.2.isArchived = true) ?_ fun _ later harchived ↦
        .bind (follows_run rfl ?_) fun _ _ _ ↦ fun _ _ ↦ trivial
  · unfold Thread.check
    split_ifs with harchived
    · exact fun _ _ ↦ harchived
    · exact fun _ h ↦ nomatch h
  · obtain ⟨r, hr, outside, s, rfl, hanswer⟩ := hpair.later.later
    refine ⟨_, hr, pair.2, ?_, rfl⟩
    unfold Happened.offers Pool.Happening.answer
    rw [hanswer]
    change pair.2 ∈ (if Fate.remove = .remove ∧ pair.2.isArchived = true then [pair.2] else [])
    rw [if_pos ⟨rfl, harchived⟩]
    exact List.mem_singleton_self _

theorem follows_call (job : Job) (past : List Happened) :
    job.call.Follows semantics Offered (fun _ _ ↦ True) past := by
  cases job with
  | request actor req =>
    by_cases hpurge : ∃ id, req = .purgeTask id
    · obtain ⟨id, rfl⟩ := hpurge
      exact follows_purgeTask actor id past
    · exact follows_of_routine (routine_handle actor req fun id hreq ↦ hpurge ⟨id, hreq⟩) past
  | login uid hostTz forceAdmin =>
    exact .bind (Thread.follows_call (Q := fun _ _ ↦ True) (fun _ h ↦ nomatch h) fun _ _ _ _ ↦ trivial)
      fun _ _ _ ↦ fun _ _ ↦ trivial
  | tick => exact .bind (follows_tickOnce past) fun _ _ _ ↦ fun _ _ ↦ trivial
  | importFile file wholeServer clash =>
    exact .bind (Thread.follows_call (Q := fun _ _ ↦ True) (fun _ h ↦ nomatch h) fun _ _ _ _ ↦ trivial)
      fun _ _ _ ↦ fun _ _ ↦ trivial

/-- Whatever runs side by side, a task is due when it is archived by the scheduler or removed for good, as
long as what the decision goes by has not changed since the task was found. -/
theorem takesDue_of_unchanged {s : Store} {jobs : List Job} {schedule : List (ℕ × Outside)}
    (hunchanged : Pool.Along Pool.further
      (fun past entry ↦ Happened.Unchanged (Pool.own entry.1 past) entry.2) []
      ((serve s jobs).logBy semantics schedule)) :
    ∀ h ∈ (serve s jobs).log semantics schedule, Happened.TakesDue h := by
  have hoffered : Pool.Along Pool.further
      (fun past entry ↦ Offered (Pool.own entry.1 past) entry.2.α entry.2.body) []
      ((serve s jobs).logBy semantics schedule) := by
    refine Pool.follows_logBy (P := fun _ ↦ Offered) (Q := fun _ _ ↦ True) fun i thread hthread ↦ ?_
    obtain ⟨job, -, rfl⟩ := List.mem_map.mp (List.mem_of_getElem? hthread)
    exact follows_call job _
  have hdue := (hoffered.and hunchanged).mono (Q := fun _ entry ↦ Happened.TakesDue entry.2) ?_
  · intro h hmem
    rw [← Pool.map_snd_logBy] at hmem
    obtain ⟨entry, hentry, rfl⟩ := List.mem_map.mp hmem
    exact hdue.forall_mem entry hentry
  · rintro past entry ⟨hoffer, hsame⟩ taken htaken row hrow
    obtain ⟨r, hr, task, htask, hid⟩ := hoffer taken htaken
    exact due_of_asFound (due_of_offers htask) (hsame taken htaken r hr task htask hid row hrow)

/-- A task that was deleted long ago. -/
def longDeleted : Store :=
  { oneTask TaskDraft.default with
    tasks := [{ newTaskRow 1 (.fromIndex 0) 0 (boardWithMembers 1 [1, 2]) 1 TaskDraft.default 1 none 0 with
      archivedAt := some 0, archivedFromCol := some 1, deletedAt := some 0 }] }

/-- A pass of the scheduler, and somebody who wants the task back. -/
def purgeAndRestore : List Job := [.tick, .request ⟨1, false⟩ (.restoreTask 1)]

def inTurnOfTwo : List (ℕ × Outside) :=
  List.replicate 6 (0, .still 3000000) ++ List.replicate 3 (1, .still 3000000)

/-- The pass comes first, and the task is gone. -/
theorem takesDue_inTurn :
    ((serve longDeleted purgeAndRestore).play semantics inTurnOfTwo).state.tasks = [] ∧
      ∀ h ∈ (serve longDeleted purgeAndRestore).log semantics inTurnOfTwo, Happened.TakesDue h :=
  ⟨by decide +kernel, takesDue_of_unchanged (by decide +kernel)⟩

/-- The task is restored after the pass has listed it, and removed all the same. -/
theorem not_takesDue_restored :
    ¬ ∀ h ∈ (serve longDeleted purgeAndRestore).log semantics
      (List.replicate 2 (0, .still 3000000) ++ List.replicate 3 (1, .still 3000000) ++
        List.replicate 2 (0, .still 3000000)), Happened.TakesDue h := by
  decide +kernel

end Taskologic.Daemon
