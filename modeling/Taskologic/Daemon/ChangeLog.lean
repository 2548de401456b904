import Taskologic.Daemon.SavedAsIs

/-!
# What the log says of an edit

An edit writes down which fields it changes, and `diff` finds them by comparing the task as it was loaded
with the draft as it was sent. What is stored of a draft is less than what is sent: the tables keep whole
seconds of a date, and who a task is assigned to and what it depends on as sets, read back in order. So the
log is exact for a draft that differs from the task in something that is stored wherever it differs at all
(`logExact_saveTask_iff`). The same two people in another order are logged as a change of the people
(`otherOrder_not_logExact`).
-/

set_option autoImplicit false
set_option relaxedAutoImplicit false

namespace Taskologic.Daemon

open Taskologic.Core Taskologic.Library

/-! ### The fields of an edit -/

/-- The fields a save can change, as the log names them. -/
inductive EditedField where
  | title
  | startAt
  | dueAt
  | description
  | checklist
  | assignees
  | dependencies
  | reminders
  | repeats
  | printRules
  | autoStart
  deriving DecidableEq, Repr

/-- The field a line of the log is about. -/
def editedField : FieldChange → EditedField
  | .title _ _ => .title
  | .startAt _ _ => .startAt
  | .dueAt _ _ => .dueAt
  | .description => .description
  | .checklist => .checklist
  | .assignees => .assignees
  | .dependencies => .dependencies
  | .reminders => .reminders
  | .repeats => .repeats
  | .printRules => .printRules
  | .autoStart => .autoStart

/-- A draft as a request brings it, with the nanoseconds of its dates. -/
structure SentDraft extends TaskDraft where
  startNanos : ℕ
  dueNanos : ℕ
  deriving DecidableEq, Repr

namespace SentDraft

variable (sent : SentDraft) (task : Task)

def start : Option (Instant × ℕ) := sent.startAt.map fun moment ↦ (moment, sent.startNanos)

def due : Option (Instant × ℕ) := sent.dueAt.map fun moment ↦ (moment, sent.dueNanos)

/-- A date of a stored task, with its nanoseconds. -/
def stored (date : Option Instant) : Option (Instant × ℕ) := date.map fun moment ↦ (moment, 0)

/-- `diff`, for a draft whose dates have nanoseconds. The lines name the moments without them. -/
def diff : List FieldChange :=
  changed task.title (trim sent.title) (.title task.title (trim sent.title)) ++
  changed (stored task.startAt) sent.start (.startAt task.startAt sent.startAt) ++
  changed (stored task.dueAt) sent.due (.dueAt task.dueAt sent.dueAt) ++
  changed task.description sent.description .description ++
  changed task.checklist sent.checklist .checklist ++
  changed task.assignees sent.assignees .assignees ++
  changed task.dependsOn sent.dependsOn .dependencies ++
  changed (task.reminderStartMinutes, task.reminderDueMinutes)
    (sent.reminderStartMinutes, sent.reminderDueMinutes) .reminders ++
  changed task.repeats sent.repeats .repeats ++
  changed task.printRules sent.printRules .printRules ++
  changed task.autoStart sent.autoStart .autoStart

/-- The draft has in a field what the task has, for `diff`. -/
def SameAs : EditedField → Prop
  | .title => task.title = trim sent.title
  | .startAt => stored task.startAt = sent.start
  | .dueAt => stored task.dueAt = sent.due
  | .description => task.description = sent.description
  | .checklist => task.checklist = sent.checklist
  | .assignees => task.assignees = sent.assignees
  | .dependencies => task.dependsOn = sent.dependsOn
  | .reminders => task.reminderStartMinutes = sent.reminderStartMinutes ∧
      task.reminderDueMinutes = sent.reminderDueMinutes
  | .repeats => task.repeats = sent.repeats
  | .printRules => task.printRules = sent.printRules
  | .autoStart => task.autoStart = sent.autoStart

end SentDraft

/-- Two tasks have the same stored in a field; the people and the dependencies are sets. -/
def StoredAlike (before after : Task) : EditedField → Prop
  | .title => before.title = after.title
  | .startAt => before.startAt = after.startAt
  | .dueAt => before.dueAt = after.dueAt
  | .description => before.description = after.description
  | .checklist => before.checklist = after.checklist
  | .assignees => ∀ uid, uid ∈ before.assignees ↔ uid ∈ after.assignees
  | .dependencies => ∀ dep, dep ∈ before.dependsOn ↔ dep ∈ after.dependsOn
  | .reminders => before.reminderStartMinutes = after.reminderStartMinutes ∧
      before.reminderDueMinutes = after.reminderDueMinutes
  | .repeats => before.repeats = after.repeats
  | .printRules => before.printRules = after.printRules
  | .autoStart => before.autoStart = after.autoStart

/-- The version is no field of an edit. -/
theorem storedAlike_version (task : Task) (version : ℕ) (field : EditedField) :
    StoredAlike task { task with version } field := by
  cases field with
  | assignees => exact fun _ ↦ Iff.rfl
  | dependencies => exact fun _ ↦ Iff.rfl
  | reminders => exact ⟨rfl, rfl⟩
  | _ => exact rfl

/-- Lines of the log that name the fields whose stored value has changed, and none where nothing has. -/
structure LogExact (before after : Task) (lines : List FieldChange) : Prop where
  nothing : lines = [] ↔ ∀ field, StoredAlike before after field
  fields : ∀ field, field ∈ lines.map editedField ↔ ¬ StoredAlike before after field

/-- A draft that differs from a task only in what is stored: a date in the second of the task's is on the
second, and the people or the dependencies of the task come as the task has them. -/
structure SentDraft.AsKept (sent : SentDraft) (task : Task) : Prop where
  start : sent.startAt.isSome = true → sent.startAt = task.startAt → sent.startNanos = 0
  due : sent.dueAt.isSome = true → sent.dueAt = task.dueAt → sent.dueNanos = 0
  assignees : (∀ uid, uid ∈ sent.assignees ↔ uid ∈ task.assignees) → sent.assignees = task.assignees
  dependsOn : (∀ dep, dep ∈ sent.dependsOn ↔ dep ∈ task.dependsOn) → sent.dependsOn = task.dependsOn

/-! ### What is logged -/

section Logged

variable {sent : SentDraft} {task : Task}

/-- A draft on whole seconds. -/
theorem SentDraft.diff_whole (hstart : sent.startNanos = 0) (hdue : sent.dueNanos = 0) :
    sent.diff task = Core.diff task sent.toTaskDraft := by
  have hinj : Function.Injective fun moment : Instant ↦ (moment, 0) := fun _ _ h ↦ (Prod.mk.inj h).1
  have hsame (date other : Option Instant) (change : FieldChange) :
      changed (SentDraft.stored date) (other.map fun moment ↦ (moment, 0)) change =
        changed date other change := by
    unfold changed SentDraft.stored
    simp only [ne_eq, (Option.map_injective hinj).eq_iff]
  simp only [SentDraft.diff, Core.diff, SentDraft.start, SentDraft.due, hstart, hdue, hsame]

theorem mem_changed {α : Type} [DecidableEq α] {before after : α} {change : FieldChange} {field : EditedField} :
    field ∈ (changed before after change).map editedField ↔ field = editedField change ∧ before ≠ after := by
  unfold changed
  split_ifs with h <;> simp [h]

/-- `diff` names a field when the draft has something else in it. -/
theorem SentDraft.mem_diff {field : EditedField} :
    field ∈ (sent.diff task).map editedField ↔ ¬ sent.SameAs task field := by
  simp only [SentDraft.diff, List.map_append, List.mem_append, mem_changed, editedField]
  cases field <;> simp [SentDraft.SameAs, imp_iff_not_or]

theorem SentDraft.diff_eq_nil : sent.diff task = [] ↔ ∀ field, sent.SameAs task field := by
  rw [← List.map_eq_nil_iff (f := editedField), List.eq_nil_iff_forall_not_mem]
  exact forall_congr' fun field ↦ by rw [SentDraft.mem_diff, not_not]

end Logged

/-! ### What is stored -/

/-- A task that has been saved with a draft has what the draft says, the people and the dependencies as
sets. -/
structure SavedWith (draft : TaskDraft) (saved : Task) : Prop where
  row : ∃ old, saved.toTaskRow = savedRow draft old
  assignees : ∀ uid, uid ∈ saved.assignees ↔ uid ∈ draft.assignees
  dependsOn : ∀ dep, dep ∈ saved.dependsOn ↔ dep ∈ draft.dependsOn
  repeats : saved.repeats = draft.repeats

section Saved

variable {outside : Outside} {s s' : Store} {task saved : Task} {draft : TaskDraft}

theorem relations_writeRelations {id : TaskId} {r : Unit}
    (h : writeRelations outside id draft s = .ok (r, s')) :
    s'.assignees = (s.setAssignees id draft.assignees).assignees ∧
      s'.deps = (s.setDeps id draft.dependsOn).deps := by
  simp only [writeRelations, Tx.bind_eq_ok, demand_eq_ok, Tx.write_eq_ok, Prod.mk.injEq] at h
  obtain ⟨_, _, ⟨-, -, rfl⟩, _, _, ⟨-, rfl⟩, _, _, ⟨-, -, rfl⟩, _, _, ⟨-, rfl⟩, h⟩ := h
  cases hrepeats : draft.repeats with
  | none =>
    simp only [hrepeats, setRepeat, Tx.write_eq_ok, Prod.mk.injEq] at h
    obtain ⟨-, rfl⟩ := h
    exact ⟨rfl, rfl⟩
  | some spec =>
    simp only [hrepeats, setRepeat, Tx.bind_eq_ok, Tx.lift_eq_ok, Tx.write_eq_ok, Prod.mk.injEq] at h
    obtain ⟨_, _, ⟨_, -, -, rfl⟩, -, rfl⟩ := h
    exact ⟨rfl, rfl⟩

/-- A save that is accepted has written the task, and then the log. -/
theorem updateTask_of_saveTask {actor : Uid} {board : Board}
    (h : saveTask outside actor board task draft s = .ok (saved, s')) :
    ∃ s₁, updateTask outside task draft s = .ok (saved, s₁) ∧ s' = { s₁ with events := s₁.events ++
      [⟨board.id, some saved.id, some actor, .taskEdited (Core.diff task draft), outside.now⟩] } := by
  simp only [saveTask, Tx.bind_eq_ok, Tx.lift_eq_ok, Prod.mk.injEq, recordEvent_eq_ok, Tx.pure_eq_ok] at h
  obtain ⟨_, _, ⟨_, -, -, rfl⟩, _, _, hdeps, _, _, hprint, _, s₁, hupdate, _, _, ⟨-, rfl⟩, rfl, rfl⟩ := h
  obtain rfl := reads_checkDeps _ _ _ _ _ _ hdeps
  obtain rfl := reads_checkPrintRecipients _ _ _ _ hprint
  exact ⟨s₁, hupdate, rfl⟩

theorem savedWith_updateTask (h : updateTask outside task draft s = .ok (saved, s')) :
    s'.task task.id = some saved ∧ SavedWith draft saved := by
  simp only [updateTask, Tx.bind_eq_ok, Tx.write_eq_ok, Prod.mk.injEq, requireTask_eq_ok] at h
  obtain ⟨_, _, ⟨-, rfl⟩, _, _, hwritten, found, hfound, rfl, rfl⟩ := h
  obtain ⟨hassignees, hdeps⟩ := relations_writeRelations hwritten
  have htasks := tasks_writeRelations _ _ _ _ _ _ hwritten
  have hrow := Store.toTaskRow_of_task hfound
  obtain ⟨old, -, hold⟩ := exists_taskRow_of_modifyTask (f := savedRow draft) (fun _ ↦ rfl) htasks hrow
  have hid : found.id = task.id := Store.id_of_task hfound
  have hrule := repeats_writeRelations hwritten
  obtain ⟨row, hsame, rfl⟩ := Option.map_eq_some_iff.mp hfound
  change row.id = task.id at hid
  refine ⟨hfound, ⟨old, hold⟩, fun uid ↦ ?_, fun dep ↦ ?_, ?_⟩
  · simp [Store.hydrate, List.mem_insertionSort, hassignees, Store.setAssignees, hid]
  · simp [Store.hydrate, List.mem_insertionSort, hdeps, Store.setDeps, hid, Edge, edgesOfOthers]
  · rw [← hrule, ← hid]
    rfl

variable {sent : SentDraft}

theorem SentDraft.stored_eq_start_iff : SentDraft.stored task.startAt = sent.start ↔
    task.startAt = sent.startAt ∧ (sent.startAt.isSome = true → sent.startNanos = 0) := by
  unfold SentDraft.stored SentDraft.start
  cases task.startAt <;> cases sent.startAt <;> simp [eq_comm]

theorem SentDraft.stored_eq_due_iff : SentDraft.stored task.dueAt = sent.due ↔
    task.dueAt = sent.dueAt ∧ (sent.dueAt.isSome = true → sent.dueNanos = 0) := by
  unfold SentDraft.stored SentDraft.due
  cases task.dueAt <;> cases sent.dueAt <;> simp [eq_comm]

/-- Where `diff` sees no change, none is stored. -/
theorem SavedWith.storedAlike (h : SavedWith sent.toTaskDraft saved) {field : EditedField}
    (hsame : sent.SameAs task field) : StoredAlike task saved field := by
  obtain ⟨⟨old, hrow⟩, hassignees, hdeps, hrepeats⟩ := h
  cases field with
  | startAt =>
    rw [StoredAlike, hrow]
    exact (SentDraft.stored_eq_start_iff.mp hsame).1
  | dueAt =>
    rw [StoredAlike, hrow]
    exact (SentDraft.stored_eq_due_iff.mp hsame).1
  | assignees =>
    intro uid
    rw [hassignees, show task.assignees = sent.assignees from hsame]
  | dependencies =>
    intro dep
    rw [hdeps, show task.dependsOn = sent.dependsOn from hsame]
  | repeats => exact hsame.trans hrepeats.symm
  | _ =>
    rw [StoredAlike, hrow]
    exact hsame

/-- No change is stored where `diff` sees one only for a draft that does not have it as it is kept. -/
theorem SavedWith.asKept_iff (h : SavedWith sent.toTaskDraft saved) : sent.AsKept task ↔
    ∀ field, StoredAlike task saved field → sent.SameAs task field := by
  obtain ⟨⟨old, hrow⟩, hassignees, hdeps, hrepeats⟩ := h
  constructor
  · rintro hkept field halike
    cases field with
    | startAt =>
      rw [StoredAlike, hrow] at halike
      exact SentDraft.stored_eq_start_iff.mpr ⟨halike, fun hsome ↦ hkept.start hsome halike.symm⟩
    | dueAt =>
      rw [StoredAlike, hrow] at halike
      exact SentDraft.stored_eq_due_iff.mpr ⟨halike, fun hsome ↦ hkept.due hsome halike.symm⟩
    | assignees => exact (hkept.assignees fun uid ↦ ((halike uid).trans (hassignees uid)).symm).symm
    | dependencies => exact (hkept.dependsOn fun dep ↦ ((halike dep).trans (hdeps dep)).symm).symm
    | repeats => exact halike.trans hrepeats
    | _ =>
      rw [StoredAlike, hrow] at halike
      exact halike
  · intro hall
    refine ⟨fun hsome hdate ↦ ?_, fun hsome hdate ↦ ?_, fun hsame ↦ ?_, fun hsame ↦ ?_⟩
    · refine (SentDraft.stored_eq_start_iff.mp (hall .startAt ?_)).2 hsome
      rw [StoredAlike, hrow]
      exact hdate.symm
    · refine (SentDraft.stored_eq_due_iff.mp (hall .dueAt ?_)).2 hsome
      rw [StoredAlike, hrow]
      exact hdate.symm
    · exact (hall .assignees fun uid ↦ ((hassignees uid).trans (hsame uid)).symm).symm
    · exact (hall .dependencies fun dep ↦ ((hdeps dep).trans (hsame dep)).symm).symm

/-- The lines are exact when they miss no change and none of them is about nothing. -/
theorem logExact_diff_iff : LogExact task saved (sent.diff task) ↔
    ∀ field, sent.SameAs task field ↔ StoredAlike task saved field := by
  constructor
  · rintro ⟨-, hfields⟩ field
    exact not_iff_not.mp (SentDraft.mem_diff.symm.trans (hfields field))
  · intro hsame
    exact ⟨SentDraft.diff_eq_nil.trans (forall_congr' hsame), fun field ↦
      SentDraft.mem_diff.trans (not_congr (hsame field))⟩

/-- The log of an edit is exact when the draft differs from the stored task only in what is stored. -/
theorem logExact_saveTask_iff {actor : Uid} {board : Board} (hstored : s.task task.id = some task)
    (hsave : saveTask outside actor board task sent.toTaskDraft s = .ok (saved, s')) :
    ∃ before after, s.task task.id = some before ∧ s'.task task.id = some after ∧
      (LogExact before after (sent.diff before) ↔ sent.AsKept before) := by
  obtain ⟨s₁, hupdate, hsame⟩ := updateTask_of_saveTask hsave
  obtain ⟨hfound, hsaved⟩ := savedWith_updateTask hupdate
  refine ⟨task, saved, hstored, ?_, ?_⟩
  · rw [hsame]
    exact hfound
  · rw [logExact_diff_iff, hsaved.asKept_iff]
    exact forall_congr' fun field ↦ ⟨Iff.mpr, fun h ↦ ⟨hsaved.storedAlike, h⟩⟩

end Saved

/-! ### The people in another order -/

/-- A task for two people, as it is stored. -/
def onSharedBoard : List Job :=
  [.login 1 Tz.utc false, .login 2 Tz.utc false,
    .request ⟨1, false⟩ (.createBoard ⟨text "Yard", [], [text "To do", text "Doing", text "Paused", text "Done"],
      1, 2, 3, 0, 0, .default, false, false, [1, 2]⟩),
    .request ⟨1, false⟩ (.createTask 1 none
      { TaskDraft.default with title := text "Feed", assignees := [2, 1], dueAt := some 500 })]

def sharedTask : Task := ((leftBehind onSharedBoard).task 1).get (by decide +kernel)

def sharedBoard : Board := ((leftBehind onSharedBoard).board 1).get (by decide +kernel)

/-- A draft with another description, on whole seconds. -/
def described : SentDraft := ⟨{ sharedTask.draft with description := text "Twice" }, 0, 0⟩

/-- The task as it is, with its people the other way round. -/
def otherOrder : SentDraft := ⟨{ sharedTask.draft with assignees := [2, 1] }, 0, 0⟩

theorem asKept_described : described.AsKept sharedTask :=
  ⟨fun _ _ ↦ rfl, fun _ _ ↦ rfl, fun _ ↦ rfl, fun _ ↦ rfl⟩

/-- The other description is logged, and nothing else. -/
theorem described_logged : described.diff sharedTask = [.description] ∧
    ∃ saved s' after, saveTask (.still 20) 1 sharedBoard sharedTask described.toTaskDraft
      (leftBehind onSharedBoard) = .ok (saved, s') ∧ s'.task sharedTask.id = some after ∧
        LogExact sharedTask after (described.diff sharedTask) := by
  have hstored : (leftBehind onSharedBoard).task sharedTask.id = some sharedTask := by decide +kernel
  have hsaves : (saveTask (.still 20) 1 sharedBoard sharedTask described.toTaskDraft
      (leftBehind onSharedBoard)).toOption.isSome = true := by decide +kernel
  refine ⟨by decide +kernel, ?_⟩
  cases hsave : saveTask (.still 20) 1 sharedBoard sharedTask described.toTaskDraft
      (leftBehind onSharedBoard) with
  | error error =>
    rw [hsave] at hsaves
    cases hsaves
  | ok r =>
    obtain ⟨before, after, hbefore, hafter, hexact⟩ := logExact_saveTask_iff hstored hsave
    obtain rfl := Option.some.inj (hstored.symm.trans hbefore)
    exact ⟨_, _, after, rfl, hafter, hexact.mpr asKept_described⟩

/-- Nothing of the task changes but its version, and the log has a change of its people. -/
theorem otherOrder_not_logExact :
    accepted ((serve (leftBehind onSharedBoard) [.request ⟨1, false⟩
      (.updateTask sharedTask.id sharedTask.version otherOrder.toTaskDraft)]).play semantics
        [(0, .still 20), (0, .still 20), (0, .still 20)]) 0 ∧
    ((serve (leftBehind onSharedBoard) [.request ⟨1, false⟩
      (.updateTask sharedTask.id sharedTask.version otherOrder.toTaskDraft)]).play semantics
        [(0, .still 20), (0, .still 20), (0, .still 20)]).state.task sharedTask.id =
          some { sharedTask with version := 2 } ∧
    otherOrder.diff sharedTask = [.assignees] ∧
    ¬ LogExact sharedTask { sharedTask with version := 2 } (otherOrder.diff sharedTask) := by
  refine ⟨?_, by decide +kernel, by decide +kernel, fun h ↦ ?_⟩
  · rw [accepted]
    decide +kernel
  · have hnone := h.nothing.mpr fun field ↦ storedAlike_version sharedTask 2 field
    exact absurd hnone (by decide +kernel)

end Taskologic.Daemon
