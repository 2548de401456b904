import Taskologic.Daemon.EngineRules
import Taskologic.Daemon.BoardRights

/-!
# What the sections do to repetitions

A repetition that is active stays with its task. Beside the scheduler, who hands it on to a copy, a section
makes repetitions active on tasks that are new, on a task that is saved with a rule and on one that is
restored, and on no others: `calm_update`. The ids of new tasks have not been handed out before.
-/

set_option autoImplicit false
set_option relaxedAutoImplicit false

namespace Taskologic.Daemon

open Taskologic.Core Taskologic.Library

/-! ### What a section may do to the repetitions -/

/-- A repetition of the task is active. -/
def Store.RepeatsNow (s : Store) (task : TaskId) : Prop :=
  ∃ row ∈ s.repeats, row.taskId = task ∧ row.active = true

instance (s : Store) (task : TaskId) : Decidable (s.RepeatsNow task) :=
  inferInstanceAs (Decidable (∃ row ∈ s.repeats, row.taskId = task ∧ row.active = true))

/-- There is a row or a repetition of the task. -/
def Store.Knows (s : Store) (task : TaskId) : Prop :=
  (∃ row ∈ s.tasks, row.id = task) ∨ ∃ row ∈ s.repeats, row.taskId = task

theorem Store.RepeatsNow.knows {s : Store} {task : TaskId} (h : s.RepeatsNow task) : s.Knows task := by
  obtain ⟨row, hrow, htask, -⟩ := h
  exact .inr ⟨row, hrow, htask⟩

theorem Store.knows_of_task {s : Store} {id : TaskId} {task : Task} (h : s.task id = some task) :
    s.Knows id := by
  have hrow := Store.toTaskRow_of_task h
  exact .inl ⟨_, List.mem_of_find?_eq_some hrow, Store.id_of_taskRow hrow⟩

/-- The ids of all tasks have been handed out. -/
def Store.Counted (s : Store) : Prop := ∀ task, s.Knows task → task < s.nextTask

/-- From one store to another, ids are handed out from some id on, and repetitions become active only on
tasks with such an id or on some others. -/
structure CalmFrom (base : TaskId) (others : TaskId → Prop) (s s' : Store) : Prop where
  grow : s.nextTask ≤ s'.nextTask
  knows : ∀ task, s'.Knows task → s.Knows task ∨ base ≤ task ∧ task < s'.nextTask
  repeats : ∀ task, s'.RepeatsNow task → s.RepeatsNow task ∨ base ≤ task ∨ others task

/-- The same once the ids up to the first have been handed out. -/
def Calm (base : TaskId) (others : TaskId → Prop) (s s' : Store) : Prop :=
  base ≤ s.nextTask → CalmFrom base others s s'

section Calm

variable {base : TaskId} {others : TaskId → Prop} {s s' : Store}

theorem CalmFrom.refl (s : Store) : CalmFrom base others s s := ⟨le_rfl, fun _ ↦ .inl, fun _ ↦ .inl⟩

instance : Std.Refl (Calm base others) := ⟨fun s _ ↦ .refl s⟩

theorem CalmFrom.trans {s'' : Store} (hone : CalmFrom base others s s') (htwo : CalmFrom base others s' s'') :
    CalmFrom base others s s'' := by
  refine ⟨hone.grow.trans htwo.grow, fun task htask ↦ ?_, fun task htask ↦ ?_⟩
  · rcases htwo.knows task htask with hknown | hnew
    · exact (hone.knows task hknown).imp_right fun hnew ↦ ⟨hnew.1, hnew.2.trans_le htwo.grow⟩
    · exact .inr hnew
  · rcases htwo.repeats task htask with hearlier | hnew
    · exact hone.repeats task hearlier
    · exact .inr hnew

theorem CalmFrom.counted (h : CalmFrom base others s s') (hcounted : s.Counted) : s'.Counted := by
  intro task htask
  rcases h.knows task htask with hbefore | hnew
  · exact (hcounted task hbefore).trans_le h.grow
  · exact hnew.2

instance : IsTrans Store (Calm base others) where
  trans _ _ _ hone htwo hbase := (hone hbase).trans (htwo (hbase.trans (hone hbase).grow))

/-- The tasks a store has and the repetitions that are active come from before. -/
theorem calm_of_sub (hnext : s'.nextTask = s.nextTask)
    (htasks : ∀ row' ∈ s'.tasks, ∃ row ∈ s.tasks, row.id = row'.id)
    (hrepeats : ∀ row' ∈ s'.repeats, ∃ row ∈ s.repeats, row.taskId = row'.taskId ∧
      (row'.active = true → row.active = true ∨ others row.taskId)) : Calm base others s s' := by
  refine fun _ ↦ ⟨hnext.ge, fun task htask ↦ .inl ?_, fun task htask ↦ ?_⟩
  · rcases htask with ⟨row', hrow', rfl⟩ | ⟨row', hrow', rfl⟩
    · exact .inl (htasks row' hrow')
    · obtain ⟨row, hrow, hsame, -⟩ := hrepeats row' hrow'
      exact .inr ⟨row, hrow, hsame⟩
  · obtain ⟨row', hrow', rfl, hactive'⟩ := htask
    obtain ⟨row, hrow, hsame, hactive⟩ := hrepeats row' hrow'
    rcases hactive hactive' with hactive | hother
    · exact .inl ⟨row, hrow, hsame, hactive⟩
    · exact .inr (.inr (hsame ▸ hother))

theorem calm_of_same (hnext : s'.nextTask = s.nextTask) (htasks : s'.tasks = s.tasks)
    (hrepeats : s'.repeats = s.repeats) : Calm base others s s' :=
  calm_of_sub hnext (fun row hrow ↦ ⟨row, htasks ▸ hrow, rfl⟩)
    fun row hrow ↦ ⟨row, hrepeats ▸ hrow, rfl, .inl⟩

/-- Rows of tasks change, beside their ids. -/
theorem calm_of_map (f : TaskRow → TaskRow) (hid : ∀ row, (f row).id = row.id) :
    Calm base others s { s with tasks := s.tasks.map f } := by
  refine calm_of_sub rfl (fun row' hrow' ↦ ?_) fun row hrow ↦ ⟨row, hrow, rfl, .inl⟩
  obtain ⟨row, hrow, rfl⟩ := List.mem_map.mp hrow'
  exact ⟨row, hrow, (hid row).symm⟩

theorem calm_modifyTask (task : TaskId) {f : TaskRow → TaskRow} (hid : ∀ row, (f row).id = row.id) :
    Calm base others s (s.modifyTask task f) := by
  refine calm_of_map _ fun row ↦ ?_
  split_ifs
  · exact hid row
  · rfl

/-- A repetition is changed, and not switched on unless it may be. -/
theorem calm_modifyRepeat (task : TaskId) {f : RepeatRow → RepeatRow}
    (hid : ∀ row, (f row).taskId = row.taskId)
    (hactive : (∀ row, (f row).active = true → row.active = true) ∨ others task) :
    Calm base others s (s.modifyRepeat task f) := by
  refine calm_of_sub rfl (fun row hrow ↦ ⟨row, hrow, rfl⟩) fun row' hrow' ↦ ?_
  obtain ⟨row, hrow, rfl⟩ := List.mem_map.mp hrow'
  refine ⟨row, hrow, ?_, ?_⟩
  · split_ifs
    · exact (hid row).symm
    · rfl
  · split_ifs with hsame
    · intro hnow
      rcases hactive with hactive | hother
      · exact .inl (hactive row hnow)
      · exact .inr (hsame ▸ hother)
    · exact .inl

/-- A repetition is taken away. -/
theorem calm_clearRepeat (task : TaskId) : Calm base others s (s.setRepeat task none) := by
  refine calm_of_sub rfl (fun row hrow ↦ ⟨row, hrow, rfl⟩) fun row hrow ↦ ⟨row, ?_, rfl, .inl⟩
  rw [Store.setRepeat, Option.toList_none, List.append_nil] at hrow
  exact List.mem_of_mem_filter hrow

theorem calm_dropTasks (gone : TaskRow → Bool) : Calm base others s (s.dropTasks gone) :=
  calm_of_sub rfl (fun row hrow ↦ ⟨row, List.mem_of_mem_filter hrow, rfl⟩)
    fun row hrow ↦ ⟨row, List.mem_of_mem_filter hrow, rfl, .inl⟩

end Calm

/-! ### Section by section -/

/-- Besides what its draft says a task's repetition is nothing. -/
theorem mem_repeats_writeRelations {outside : Outside} {task : TaskId} {draft : TaskDraft} {s s' : Store}
    {r : Unit} (h : writeRelations outside task draft s = .ok (r, s')) {row : RepeatRow}
    (hrow : row ∈ s'.repeats) :
    row ∈ s.repeats ∧ row.taskId ≠ task ∨ row.taskId = task ∧ draft.repeats.isSome = true := by
  simp only [writeRelations, Tx.bind_eq_ok, demand_eq_ok, Tx.write_eq_ok, Prod.mk.injEq] at h
  obtain ⟨_, _, ⟨-, -, rfl⟩, _, _, ⟨-, rfl⟩, _, _, ⟨-, -, rfl⟩, _, _, ⟨-, rfl⟩, h⟩ := h
  have hset (new : Option RepeatRow) (s₁ : Store) (hrow : row ∈ (s₁.setRepeat task new).repeats) :
      row ∈ s₁.repeats ∧ row.taskId ≠ task ∨ row ∈ new := by
    rw [Store.setRepeat, List.mem_append, List.mem_filter, Option.mem_toList] at hrow
    exact hrow.imp_left fun hold ↦ ⟨hold.1, by simpa using hold.2⟩
  cases hrepeats : draft.repeats with
  | none =>
    simp only [hrepeats, setRepeat, Tx.write_eq_ok, Prod.mk.injEq] at h
    obtain ⟨-, rfl⟩ := h
    rcases hset _ _ hrow with hold | hnew
    · exact .inl hold
    · cases hnew
  | some spec =>
    simp only [hrepeats, setRepeat, Tx.bind_eq_ok, Tx.lift_eq_ok, Tx.write_eq_ok, Prod.mk.injEq] at h
    obtain ⟨_, _, ⟨-, -, -, rfl⟩, -, rfl⟩ := h
    rcases hset _ _ hrow with hold | hnew
    · exact .inl hold
    · obtain rfl := Option.some.inj hnew
      exact .inr ⟨rfl, rfl⟩

/-- Making a task touches no other task's repetition. -/
theorem createTask_repeats {outside : Outside} {board : Board} {column : ColumnId} {draft : TaskDraft}
    {creator : Uid} {fromTemplate : Option TemplateId} {s s' : Store} {task : Task}
    (h : createTask outside board column draft creator fromTemplate s = .ok (task, s')) :
    task.id = s.nextTask ∧ s'.nextTask = s.nextTask + 1 ∧
      (∀ row ∈ s'.tasks, row ∈ s.tasks ∨ row.id = s.nextTask) ∧
        ∀ row ∈ s'.repeats, row ∈ s.repeats ∨ row.taskId = s.nextTask := by
  simp only [createTask, Tx.bind_eq_ok, Tx.lift_eq_ok, Tx.read_eq_ok, Tx.require_eq_ok, demand_eq_ok,
    Tx.write_eq_ok, Prod.mk.injEq, recordEvent_eq_ok, requireTask_eq_ok] at h
  obtain ⟨_, _, ⟨_, -, -, rfl⟩, id, _, ⟨rfl, rfl⟩, _, _, ⟨rfl, rfl⟩, _, _, ⟨shortId, -, rfl, rfl⟩,
    position, _, hposition, _, _, ⟨-, -, rfl⟩, _, _, ⟨-, rfl⟩, _, _, hrelations, _, _, ⟨-, rfl⟩, _,
    hfound, rfl, rfl⟩ := h
  obtain rfl := reads_nextPosition _ _ _ _ hposition
  have hbeside := aside_writeRelations hrelations
  refine ⟨Store.id_of_task hfound, hbeside.nextTask, fun row hrow ↦ ?_, fun row hrow ↦ ?_⟩
  · change row ∈ Store.tasks _ at hrow
    rw [hbeside.tasks] at hrow
    rcases List.mem_append.mp hrow with hold | hnew
    · exact .inl hold
    · rw [List.mem_singleton.mp hnew]
      exact .inr rfl
  · exact (mem_repeats_writeRelations hrelations hrow).imp (fun hold ↦ hold.1) fun hnew ↦ hnew.1

section Sections

variable {base : TaskId} {others : TaskId → Prop}

/-- One more task, with whatever repetition. -/
theorem calm_of_new {s s' : Store} (hnext : s'.nextTask = s.nextTask + 1)
    (htasks : ∀ row ∈ s'.tasks, row ∈ s.tasks ∨ row.id = s.nextTask)
    (hrepeats : ∀ row ∈ s'.repeats, row ∈ s.repeats ∨ row.taskId = s.nextTask) : Calm base others s s' := by
  intro hbase
  have hlt : s.nextTask < s'.nextTask := hnext ▸ Nat.lt_succ_self _
  have hnew : base ≤ s.nextTask ∧ s.nextTask < s'.nextTask := ⟨hbase, hlt⟩
  refine ⟨hlt.le, fun task htask ↦ ?_, fun task htask ↦ ?_⟩
  · rcases htask with ⟨row, hrow, rfl⟩ | ⟨row, hrow, rfl⟩
    · rcases htasks row hrow with hold | hid
      · exact .inl (.inl ⟨row, hold, rfl⟩)
      · exact .inr (hid ▸ hnew)
    · rcases hrepeats row hrow with hold | hid
      · exact .inl (.inr ⟨row, hold, rfl⟩)
      · exact .inr (hid ▸ hnew)
  · obtain ⟨row, hrow, rfl, hactive⟩ := htask
    rcases hrepeats row hrow with hold | hid
    · exact .inl ⟨row, hold, rfl, hactive⟩
    · exact .inr (.inl (hid ▸ hbase))

theorem calm_createTask (outside : Outside) (board : Board) (column : ColumnId) (draft : TaskDraft)
    (creator : Uid) (fromTemplate : Option TemplateId) :
    Tx.Within (Calm base others) (createTask outside board column draft creator fromTemplate) := by
  intro s task s' h
  obtain ⟨-, hnext, htasks, hrepeats⟩ := createTask_repeats h
  exact calm_of_new hnext htasks hrepeats

theorem calm_engine (outside : Outside) (board : Board) : EngineKeeps outside board (Calm base others) where
  runs _ _ h := calm_of_same (congrArg Kept.nextTask h) (congrArg Kept.tasks h) (congrArg Kept.repeats h)
  slips _ _ := calm_of_same rfl rfl rfl
  rows _ task _ h := calm_modifyTask task fun row ↦ id_of_lasting (h row)
  make _ _ _ _ := calm_createTask _ _ _ _ _ _

theorem calm_write {f : Store → Store} (hnext : ∀ s, (f s).nextTask = s.nextTask)
    (htasks : ∀ s, (f s).tasks = s.tasks) (hrepeats : ∀ s, (f s).repeats = s.repeats) :
    Tx.Within (Calm base others) (Tx.write f : Work Unit) :=
  .write fun s ↦ calm_of_same (hnext s) (htasks s) (hrepeats s)

theorem calm_writeTask (task : TaskId) {f : TaskRow → TaskRow} (hid : ∀ row, (f row).id = row.id) :
    Tx.Within (Calm base others) (Tx.write fun s ↦ s.modifyTask task f : Work Unit) :=
  .write fun _ ↦ calm_modifyTask task hid

theorem calm_recordEvent (board : BoardId) (task : Option TaskId) (actor : Option Uid) (kind : EventKind)
    (now : Instant) : Tx.Within (Calm base others) (recordEvent board task actor kind now) :=
  calm_write (fun _ ↦ rfl) (fun _ ↦ rfl) fun _ ↦ rfl

theorem calm_advanceRepeat (task : TaskId) (next : Option Instant) :
    Tx.Within (Calm base others) (advanceRepeat task next) := by
  cases next with
  | none => exact .write fun _ ↦ calm_modifyRepeat task (fun _ ↦ rfl) (.inl fun _ h ↦ nomatch h)
  | some next => exact .write fun _ ↦ calm_modifyRepeat task (fun _ ↦ rfl) (.inl fun _ ↦ id)

theorem calm_softDeleteTask (outside : Outside) (task : Task) :
    Tx.Within (Calm base others) (softDeleteTask outside task) :=
  .bind (calm_writeTask _ fun _ ↦ rfl) fun _ ↦
    .bind (.write fun _ ↦ calm_modifyRepeat task.id (fun _ ↦ rfl) (.inl fun _ h ↦ nomatch h)) fun _ ↦
      (reads_requireTask _).within

/-- A task that is deleted is still there, and does not repeat. -/
theorem softDeleteTask_repeats {outside : Outside} {task gone : Task} {s s' : Store}
    (h : softDeleteTask outside task s = .ok (gone, s')) :
    s'.Knows task.id ∧ ¬ s'.RepeatsNow task.id := by
  simp only [softDeleteTask, Tx.bind_eq_ok, Tx.write_eq_ok, Prod.mk.injEq, requireTask_eq_ok] at h
  obtain ⟨_, _, ⟨-, rfl⟩, _, _, ⟨-, rfl⟩, found, hfound, -, rfl⟩ := h
  refine ⟨Store.knows_of_task hfound, ?_⟩
  rintro ⟨row, hrow, hsame, hactive⟩
  obtain ⟨old, -, rfl⟩ := List.mem_map.mp hrow
  split_ifs at hsame hactive with hid
  exact hid hsame

/-- A task whose repetition is taken away is still there, and does not repeat. -/
theorem endRepeat_repeats {outside : Outside} {actor : Uid} {board : Board} {task stopped : Task}
    {s s' : Store} (h : endRepeat outside actor board task s = .ok (stopped, s')) :
    s'.Knows task.id ∧ ¬ s'.RepeatsNow task.id := by
  simp only [endRepeat, stopRepeat, Tx.bind_eq_ok, Tx.write_eq_ok, Prod.mk.injEq, requireTask_eq_ok,
    recordEvent_eq_ok, Tx.pure_eq_ok] at h
  obtain ⟨_, _, ⟨_, _, ⟨-, rfl⟩, found, hfound, -, rfl⟩, _, _, ⟨-, rfl⟩, -, rfl⟩ := h
  refine ⟨Store.knows_of_task hfound, ?_⟩
  rintro ⟨row, hrow, hsame, -⟩
  simp [Store.modifyTask, Store.setRepeat, hsame] at hrow

theorem calm_bringBack (outside : Outside) (actor : Uid) (board : Board) (task : Task)
    (destination : ColumnId) (htask : others task.id) :
    Tx.Within (Calm base others) (bringBack outside actor board task destination) := by
  refine .bind ?_ fun restored ↦ .bind (calm_recordEvent _ _ _ _ _) fun _ ↦
    .bind ((calm_engine outside board).plan.afterRestore _) fun _ ↦ .pure _
  exact .bind (reads_nextPosition _).within fun _ ↦ .bind (reads_demand _ _).within fun _ ↦
    .bind (calm_writeTask _ fun _ ↦ rfl) fun _ ↦
      .bind (.write fun _ ↦ calm_modifyRepeat task.id (fun _ ↦ rfl) (.inr htask)) fun _ ↦
        (reads_requireTask _).within

/-- What a save leaves of the repetitions. -/
theorem saveTask_repeats {outside : Outside} {actor : Uid} {board : Board} {task saved : Task}
    {draft : TaskDraft} {s s' : Store} (h : saveTask outside actor board task draft s = .ok (saved, s')) :
    s'.nextTask = s.nextTask ∧ s'.Knows task.id ∧ ∀ row ∈ s'.repeats,
      row ∈ s.repeats ∧ row.taskId ≠ task.id ∨ row.taskId = task.id ∧ draft.repeats.isSome = true := by
  simp only [saveTask, updateTask, Tx.bind_eq_ok, Tx.lift_eq_ok, Tx.write_eq_ok, Prod.mk.injEq,
    recordEvent_eq_ok, requireTask_eq_ok, Tx.pure_eq_ok] at h
  obtain ⟨_, _, ⟨_, -, -, rfl⟩, _, _, hdeps, _, _, hprint, _, _, ⟨_, _, ⟨-, rfl⟩, _, _, hrelations, found,
    hfound, rfl, rfl⟩, _, _, ⟨-, rfl⟩, rfl, rfl⟩ := h
  obtain rfl := reads_checkDeps _ _ _ _ _ _ hdeps
  obtain rfl := reads_checkPrintRecipients _ _ _ _ hprint
  exact ⟨(aside_writeRelations hrelations).nextTask, Store.knows_of_task hfound,
    fun row hrow ↦ mem_repeats_writeRelations hrelations hrow⟩

theorem calm_saveTask (outside : Outside) (actor : Uid) (board : Board) (task : Task) (draft : TaskDraft)
    (htask : draft.repeats.isSome = true → others task.id) :
    Tx.Within (Calm base others) (saveTask outside actor board task draft) := by
  intro s saved s' h
  obtain ⟨hnext, -, hrepeats⟩ := saveTask_repeats h
  obtain ⟨⟨old, hold⟩, htasks⟩ := tasks_saveTask h
  have hknown : s.Knows task.id := .inl ⟨old, List.mem_of_find?_eq_some hold, Store.id_of_taskRow hold⟩
  refine fun _ ↦ ⟨hnext.ge, fun id hid ↦ .inl ?_, fun id hid ↦ ?_⟩
  · rcases hid with ⟨row, hrow, rfl⟩ | ⟨row, hrow, rfl⟩
    · rw [htasks] at hrow
      obtain ⟨old, hold, rfl⟩ := List.mem_map.mp hrow
      refine .inl ⟨old, hold, ?_⟩
      split_ifs <;> rfl
    · rcases hrepeats row hrow with hrow | hrow
      · exact .inr ⟨row, hrow.1, rfl⟩
      · exact hrow.1 ▸ hknown
  · obtain ⟨row, hrow, rfl, hactive⟩ := hid
    rcases hrepeats row hrow with hrow | hrow
    · exact .inl ⟨row, hrow.1, rfl, hactive⟩
    · exact .inr (.inr (hrow.1 ▸ htask hrow.2))

end Sections

/-! ### Files -/

/-- The tasks of a file have gone to ids handed out from some id on. -/
def MapsFrom (base : TaskId) (maps : Maps) (s : Store) : Prop :=
  ∀ pair ∈ maps.tasks, base ≤ pair.2 ∧ pair.2 < s.nextTask

theorem MapsFrom.of_lookup {base : TaskId} {maps : Maps} {s : Store} (h : MapsFrom base maps s)
    {id task : TaskId} (hlookup : maps.tasks.lookup id = some task) : base ≤ task ∧ task < s.nextTask := by
  obtain ⟨before, after, hmaps, -⟩ := List.lookup_eq_some_iff.mp hlookup
  exact h (id, task) (by rw [hmaps]; simp)

theorem MapsFrom.later {base : TaskId} {maps : Maps} {s s' : Store} (h : MapsFrom base maps s)
    (hgrow : s.nextTask ≤ s'.nextTask) : MapsFrom base maps s' :=
  fun pair hpair ↦ ⟨(h pair hpair).1, (h pair hpair).2.trans_le hgrow⟩

section Import

variable {base : TaskId} {others : TaskId → Prop}

/-- An import is under way that began at another store. -/
def Importing (base : TaskId) (others : TaskId → Prop) (start s : Store) : Prop :=
  base ≤ s.nextTask ∧ CalmFrom base others start s

theorem leads_of_calm {α : Type} {work : Work α} (h : Tx.Within (Calm base others) work) (start : Store) :
    Tx.Leads (Importing base others start) work fun _ ↦ Importing base others start := by
  rintro s a s' ⟨hbase, hcalm⟩ hrun
  have hstep := h s a s' hrun hbase
  exact ⟨hbase.trans hstep.grow, hcalm.trans hstep⟩

/-- A task of a file is a new one. -/
theorem importTask_spec {outside : Outside} {board : BoardId} {maps : Maps} {task : Task} {s s' : Store}
    {pair : TaskId × TaskId} (h : importTask outside board maps task s = .ok (pair, s')) :
    pair.2 = s.nextTask ∧ s'.nextTask = s.nextTask + 1 ∧ s'.repeats = s.repeats ∧
      ∀ row ∈ s'.tasks, row ∈ s.tasks ∨ row.id = s.nextTask := by
  obtain ⟨row, hid, -, -, rfl, rfl⟩ := importTask_eq_ok h
  refine ⟨rfl, congrArg (· + 1) hid, rfl, fun other hmem ↦ ?_⟩
  exact (List.mem_append.mp hmem).imp_right fun hlast ↦ by rw [List.mem_singleton.mp hlast, hid]

theorem calm_importTask (outside : Outside) (board : BoardId) (maps : Maps) (task : Task) :
    Tx.Within (Calm base others) (importTask outside board maps task) := by
  intro s pair s' h
  obtain ⟨-, hnext, hrepeats, htasks⟩ := importTask_spec h
  exact calm_of_new hnext htasks fun row hrow ↦ .inl (hrepeats ▸ hrow)

/-- The tasks of a board go to new ids. -/
theorem leads_importTasks (outside : Outside) (board : BoardId) (maps : Maps) (start : Store)
    (tasks : List Task) :
    Tx.Leads (Importing base others start) (Tx.each (importTask outside board maps) tasks) fun pairs s ↦
      (∀ pair ∈ pairs, base ≤ pair.2 ∧ pair.2 < s.nextTask) ∧ Importing base others start s := by
  refine .each_all (fun task _ s pair s' himporting h ↦ ?_) fun task _ pair s _ s' hbefore h ↦ ?_
  · obtain ⟨hid, hnext, -, -⟩ := importTask_spec h
    refine ⟨⟨hid ▸ himporting.1, ?_⟩, leads_of_calm (calm_importTask _ _ _ _) start _ _ _ himporting h⟩
    rw [hid, hnext]
    exact Nat.lt_succ_self _
  · have hcalm : Calm base others s s' := calm_importTask _ _ _ _ _ _ _ h
    have hgrow := (hcalm hbefore.2.1).grow
    exact ⟨hbefore.1.1, hbefore.1.2.trans_le hgrow⟩

theorem calm_importBoard (outside : Outside) (board : Board) (clash : Clash) (maps : Maps) :
    Tx.Within (Calm base others) (importBoard outside board clash maps) :=
  .bind (reads_demand _ _).within fun _ ↦ .bind (.read _) fun _ ↦ .bind (.read _) fun _ ↦
    .bind (reads_keptShortId _ _ _ _ _ _).within fun _ ↦ .bind (.require _ _) fun _ ↦
      .bind (.require _ _) fun _ ↦ .bind (.require _ _) fun _ ↦
        .bind (calm_write (fun _ ↦ rfl) (fun _ ↦ rfl) fun _ ↦ rfl) fun _ ↦ .pure _

/-- A board goes somewhere, and no task does yet. -/
theorem importBoard_tasks {outside : Outside} {board : Board} {clash : Clash} {maps maps' : Maps}
    {s s' : Store} (h : importBoard outside board clash maps s = .ok (maps', s')) :
    maps'.tasks = maps.tasks := by
  simp only [importBoard, Tx.bind_eq_ok, Tx.pure_eq_ok, Prod.mk.injEq] at h
  obtain ⟨_, _, -, _, _, -, _, _, -, _, _, -, _, _, -, _, _, -, _, _, -, _, _, -, rfl, -⟩ := h
  rfl

/-- The rows of a board: whatever tasks they hold are new. -/
theorem leads_importBoardRows (outside : Outside) (clash : Clash) (start : Store) (maps : Maps)
    (bundle : BoardBundle) :
    Tx.Leads (fun s ↦ MapsFrom base maps s ∧ Importing base others start s)
      (importBoardRows outside clash maps bundle)
        fun maps s ↦ MapsFrom base maps s ∧ Importing base others start s := by
  rintro s maps' s' ⟨hmaps, himporting⟩ h
  rw [importBoardRows, Tx.bind_eq_ok] at h
  obtain ⟨board, _, hread, h⟩ := h
  obtain ⟨rfl, rfl⟩ := Prod.ext_iff.mp (Tx.read_eq_ok.mp hread)
  obtain ⟨maps₁, s₁, hboard, h⟩ := Tx.bind_eq_ok.mp h
  obtain ⟨templates, s₂, htemplates, h⟩ := Tx.bind_eq_ok.mp h
  obtain ⟨_, s₃, hlinked, h⟩ := Tx.bind_eq_ok.mp h
  obtain ⟨programs, s₄, hprograms, h⟩ := Tx.bind_eq_ok.mp h
  obtain ⟨tasks, s₅, htasks, h⟩ := Tx.bind_eq_ok.mp h
  obtain ⟨rfl, rfl⟩ := Prod.ext_iff.mp (Tx.pure_eq_ok.mp h)
  -- From here on the import is one that began at `s`, so that ids only grow from those of `s`.
  have hone : Importing base others s s₁ :=
    leads_of_calm (calm_importBoard _ _ _ _) s _ _ _ ⟨himporting.1, .refl s⟩ hboard
  have htwo := leads_of_calm (.each fun template _ ↦ ?_) s _ _ _ hone htemplates
  have hthree := leads_of_calm (.write fun s ↦ ?_) s _ _ _ htwo hlinked
  have hfour := leads_of_calm (.each fun program _ ↦ ?_) s _ _ _ hthree hprograms
  obtain ⟨hnew, hbase, hfive⟩ := leads_importTasks _ _ _ s _ _ _ _ hfour htasks
  refine ⟨fun pair hpair ↦ ?_, hbase, himporting.2.trans hfive⟩
  · rcases List.mem_append.mp hpair with hlater | hearlier
    · exact hnew pair (List.mem_reverse.mp hlater)
    · rw [importBoard_tasks hboard] at hearlier
      exact hmaps.later hfive.grow pair hearlier
  · exact .bind (.read _) fun _ ↦ .bind (.read _) fun _ ↦
      .bind (reads_keptShortId _ _ _ _ _ _).within fun _ ↦
        .bind (calm_write (fun _ ↦ rfl) (fun _ ↦ rfl) fun _ ↦ rfl) fun _ ↦ .pure _
  · clear hmaps himporting hboard hread htemplates hlinked hprograms htasks hone htwo
    induction bundle.templates generalizing s with
    | nil => exact refl_of _ _
    | cons template rest ih =>
      rw [List.foldl_cons]
      refine IsTrans.trans _ _ _ ?_ (ih _)
      split
      · split_ifs
        · exact refl_of _ _
        · exact calm_of_same rfl rfl rfl
      · exact refl_of _ _
  · exact .bind (.read _) fun _ ↦ .bind (.read _) fun _ ↦
      .bind (reads_keptShortId _ _ _ _ _ _).within fun _ ↦
        .bind (calm_write (fun _ ↦ rfl) (fun _ ↦ rfl) fun _ ↦ rfl) fun _ ↦ .pure _

/-- What the steps of an import keep. -/
def Filing (base : TaskId) (others : TaskId → Prop) (start : Store) (maps : Maps) (s : Store) : Prop :=
  MapsFrom base maps s ∧ Importing base others start s

theorem filing_of_calm {α : Type} {work : Work α} (h : Tx.Within (Calm base others) work) (start : Store)
    (maps : Maps) :
    Tx.Leads (Filing base others start maps) work fun _ ↦ Filing base others start maps := by
  rintro s a s' ⟨hmaps, himporting⟩ hrun
  exact ⟨hmaps.later (h s a s' hrun himporting.1).grow, leads_of_calm h start s a s' himporting hrun⟩

theorem filing_importRepeat (start : Store) (maps : Maps) (row : RepeatRow) :
    Tx.Leads (Filing base others start maps) (importRepeat maps row)
      fun _ ↦ Filing base others start maps := by
  rintro s a s' ⟨hmaps, himporting⟩ hrun
  obtain ⟨-, rfl⟩ := Prod.ext_iff.mp (Tx.write_eq_ok.mp hrun)
  split
  · rename_i id hlookup
    obtain ⟨hbase, hlt⟩ := hmaps.of_lookup hlookup
    refine ⟨hmaps, himporting.1, himporting.2.trans ⟨le_rfl, fun task htask ↦ ?_, fun task htask ↦ ?_⟩⟩
    · rcases htask with hrow | ⟨new, hnew, rfl⟩
      · exact .inl (.inl hrow)
      · rcases List.mem_append.mp hnew with hold | hadded
        · exact .inl (.inr ⟨new, List.mem_of_mem_filter hold, rfl⟩)
        · rw [List.mem_singleton.mp hadded]
          exact .inr ⟨hbase, hlt⟩
    · obtain ⟨new, hnew, rfl, hactive⟩ := htask
      rcases List.mem_append.mp hnew with hold | hadded
      · exact .inl ⟨new, List.mem_of_mem_filter hold, rfl, hactive⟩
      · rw [List.mem_singleton.mp hadded]
        exact .inr (.inl hbase)
  · exact ⟨hmaps, himporting⟩

theorem filing_importLinks (start : Store) (maps : Maps) (bundle : BoardBundle) :
    Tx.Leads (Filing base others start maps) (importLinks maps bundle)
      fun maps ↦ Filing base others start maps := by
  refine .bind (filing_of_calm (.require _ _) _ _) fun board ↦
    .bind (.each fun task _ ↦ filing_of_calm (.write fun s ↦ ?_) _ _) fun _ ↦
      .bind (.each fun row _ ↦ filing_importRepeat _ _ _) fun _ ↦
        .bind (filing_of_calm (reads_requireBoard _).within _ _) fun _ ↦
          .bind (.each fun run _ ↦ filing_of_calm ?_ _ _) fun _ ↦
            .bind (.each fun slip _ ↦ filing_of_calm (.write fun s ↦ ?_) _ _) fun _ ↦ ?_
  · split
    · induction task.dependsOn generalizing s with
      | nil => exact refl_of _ _
      | cons dep rest ih =>
        refine IsTrans.trans _ _ _ ?_ (ih _)
        dsimp only
        split <;> exact calm_of_same rfl rfl rfl
    · exact refl_of _ _
  · unfold importRun
    split
    · exact .pure _
    · refine .bind (.read _) fun id ↦ .bind (calm_write (fun _ ↦ rfl) (fun _ ↦ rfl) fun _ ↦ rfl) fun _ ↦
        .bind (.each fun link _ ↦ .write fun s ↦ ?_) fun _ ↦ .pure _
      split
      · split_ifs <;> exact calm_of_same rfl rfl rfl
      · exact refl_of _ _
  · split <;> exact calm_of_same rfl rfl rfl
  · rintro s maps' s' hfiling hrun
    obtain ⟨rfl, rfl⟩ := Prod.ext_iff.mp (Tx.pure_eq_ok.mp hrun)
    exact hfiling

theorem leads_eachWith {α : Type} {P : Maps → Store → Prop} {f : Maps → α → Work Maps}
    (h : ∀ maps a, Tx.Leads (P maps) (f maps a) P) (maps : Maps) (entries : List α) :
    Tx.Leads (P maps) (eachWith f maps entries) P := by
  induction entries generalizing maps with
  | nil =>
    intro s maps' s' hs hrun
    obtain ⟨rfl, rfl⟩ := Prod.ext_iff.mp (Tx.pure_eq_ok.mp hrun)
    exact hs
  | cons a rest ih => exact .bind (h maps a) fun maps ↦ ih maps

/-- A file brings its repetitions to tasks of its own. -/
theorem calm_importEverything (outside : Outside) (file : ImportFile) (wholeServer : Bool)
    (clash : Clash) :
    Tx.Within (Calm base others) (importEverything outside file wholeServer clash) := by
  have hpeople : Tx.Within (Calm base others) (importPeople file.users wholeServer) := by
    refine .write fun s ↦ ?_
    split_ifs with hfirst
    · exact refl_of _ _
    · clear hfirst
      generalize file.users = people
      induction people generalizing s with
      | nil => exact refl_of _ _
      | cons person rest ih =>
        refine IsTrans.trans _ _ _ ?_ (ih _)
        dsimp only
        split_ifs
        · exact refl_of _ _
        · exact calm_of_same rfl rfl rfl
  refine .bind hpeople fun _ s a s' hrun hbase ↦ ?_
  obtain ⟨maps₁, s₁, hrows, hrun⟩ := Tx.bind_eq_ok.mp hrun
  obtain ⟨maps₂, s₂, hlinks, hrun⟩ := Tx.bind_eq_ok.mp hrun
  have hstart : Filing base others s .default s :=
    ⟨fun pair hpair ↦ (List.not_mem_nil hpair).elim, hbase, .refl s⟩
  have hone : Filing base others s maps₁ s₁ :=
    leads_eachWith (leads_importBoardRows outside clash s) _ _ _ _ _ hstart hrows
  have htwo := leads_eachWith (filing_importLinks s) _ _ _ _ _ hone hlinks
  have hevents : Tx.Within (Calm base others) (do
      let _ ← Tx.each (importEvents maps₂) file.boards
      pure () : Work Unit) :=
    .bind (.each fun bundle _ ↦ .bind (.require _ _) fun _ ↦
      calm_write (fun _ ↦ rfl) (fun _ ↦ rfl) fun _ ↦ rfl) fun _ ↦ .pure _
  exact (leads_of_calm hevents s _ _ _ htwo.2 hrun).2

end Import

/-! ### All updates -/

/-- The task whose repetition the update may switch on. -/
def Update.rearms {α : Type} (update : Update α) (id : TaskId) : Prop :=
  match update with
  | .saveTask _ _ task draft => draft.repeats.isSome = true ∧ task.id = id
  | .bringBack _ _ task _ => task.id = id
  | _ => False

theorem calm_spawnRepeat {base : TaskId} {others : TaskId → Prop} (outside : Outside) (board : Board)
    (firstCol : ColumnId) (task : Task) :
    Tx.Within (Calm base others) (spawnRepeat outside board firstCol task) :=
  .bind (calm_createTask _ _ _ _ _ _) fun _ ↦ .bind (calm_recordEvent _ _ _ _ _) fun _ ↦
    .bind (calm_advanceRepeat _ _) fun _ ↦ .pure _

theorem calm_update {α : Type} (base : TaskId) (outside : Outside) (update : Update α) :
    Tx.Within (Calm base update.rearms) (update.work outside) := by
  have hwrite {others : TaskId → Prop} {f : Store → Store} (hnext : ∀ s, (f s).nextTask = s.nextTask)
      (htasks : ∀ s, (f s).tasks = s.tasks) (hrepeats : ∀ s, (f s).repeats = s.repeats) :
      Tx.Within (Calm base others) (Tx.write f : Work Unit) := calm_write hnext htasks hrepeats
  cases update with
  | importEverything file wholeServer clash => exact calm_importEverything _ _ _ _
  | moveTaskBy actor board task destination position overrideDeps answer =>
    exact (calm_engine _ _).moveTaskBy _ _ _ _ _ _
  | giveAnswer board task answer => exact (calm_engine _ _).plan.giveAnswer _ _
  | startProgram actor board program column startAt fanOut =>
    exact (calm_engine _ _).plan.startProgram _ _ _ _ _
  | deleteTask actor board task => exact (calm_engine _ _).plan.deleteTask _ _ (calm_softDeleteTask _ _)
  | cancel actor board run deleteOpenTasks =>
    exact (calm_engine _ board).plan.cancel _ _ fun task ↦ calm_softDeleteTask _ _
  | bringBack actor board task destination => exact calm_bringBack _ _ _ _ _ rfl
  | saveTask actor board task draft => exact calm_saveTask _ _ _ _ _ fun h ↦ ⟨h, rfl⟩
  | spawnRepeat board firstCol task => exact calm_spawnRepeat _ _ _ _
  | advanceRepeat task next => exact calm_advanceRepeat _ _
  | purge actor board task =>
    exact .bind (calm_recordEvent _ _ _ _ _) fun _ ↦ .write fun _ ↦ calm_dropTasks _
  | removeBoard actor board =>
    exact .bind (calm_recordEvent _ _ _ _ _) fun _ ↦ .bind (reads_demand _ _).within fun _ ↦
      .write fun s ↦ IsTrans.trans s _ _ (calm_dropTasks fun row ↦ row.boardId == board)
        (calm_of_same rfl rfl rfl)
  | endRepeat actor board task =>
    refine .bind ?_ fun _ ↦ .bind (calm_recordEvent _ _ _ _ _) fun _ ↦ .pure _
    exact .bind (.write fun s ↦ IsTrans.trans s _ _ (calm_clearRepeat task.id)
      (calm_modifyTask task.id fun _ ↦ rfl)) fun _ ↦ (reads_requireTask _).within
  | leaveBoard actor board uid unassign =>
    refine .bind (.read _) fun _ ↦ .bind (.check _ _) fun _ ↦ .bind ?_ fun _ ↦
      .bind (hwrite (fun _ ↦ rfl) (fun _ ↦ rfl) fun _ ↦ rfl) fun _ ↦
        .bind (calm_recordEvent _ _ _ _ _) fun _ ↦ .pure _
    refine .bind (.read _) fun tasks ↦ .bind (.write fun s ↦ ?_) fun _ ↦ .pure _
    refine IsTrans.trans s _ _ (calm_of_map _ fun row ↦ ?_) (calm_of_same rfl rfl rfl)
    split_ifs <;> rfl
  | saveBoard actor before req =>
    have hupdate : Tx.Within (Calm base (Update.saveBoard actor before req).rearms)
        (updateBoard before req) := by
      intro s a s' h
      rw [updateBoard_eq_ok h]
      exact calm_of_same rfl rfl rfl
    have hcarry (after : Board) (uid : Uid) : Tx.Within (Calm base (Update.saveBoard actor before req).rearms)
        (carryOver outside actor after.id uid) :=
      .bind (hwrite (fun _ ↦ rfl) (fun _ ↦ rfl) fun _ ↦ rfl) fun _ ↦ calm_recordEvent _ _ _ _ _
    refine .bind hupdate fun after ↦ ?_
    refine .ite (fun _ ↦ .bind (.read _) fun _ ↦ .bind (.each fun uid _ ↦ hcarry after uid) fun _ ↦ ?_)
      fun _ ↦ ?_
    all_goals exact .bind (calm_recordEvent _ _ _ _ _) fun _ ↦ (reads_requireBoard _).within
  | reorderColumns board order =>
    refine .bind (.check _ _) fun _ ↦ .write fun s ↦ ?_
    induction order.zipIdx generalizing s with
    | nil => exact refl_of _ _
    | cons entry rest ih =>
      refine IsTrans.trans s _ _ ?_ (ih _)
      exact calm_of_same rfl rfl rfl
  | dropColumn actor board plan =>
    have hmove : Tx.Within (Calm base (Update.dropColumn actor board plan).rearms)
        (moveColumnTasks outside.sweep plan.removed plan.moveTasksTo) := by
      cases plan.moveTasksTo with
      | none => exact .pure _
      | some destination =>
        refine .bind (reads_nextPosition _).within fun _ ↦ .bind (reads_demand _ _).within fun _ ↦
          .write fun s ↦ calm_of_map _ fun row ↦ ?_
        split_ifs <;> rfl
    refine .bind ?_ fun _ ↦ calm_recordEvent _ _ _ _ _
    exact .bind hmove fun _ ↦ .bind (hwrite (fun _ ↦ rfl) (fun _ ↦ rfl) fun _ ↦ rfl) fun _ ↦
      .bind (reads_demand _ _).within fun _ ↦ hwrite (fun _ ↦ rfl) (fun _ ↦ rfl) fun _ ↦ rfl
  | createFromTemplate actor board template column draft =>
    have hstamp (anchors : TemplateId → Option Instant) (rootStart : Instant) (id : TemplateId) :
        Tx.Within (Calm base (Update.createFromTemplate actor board template column draft).rearms)
          (stamp outside actor board column anchors rootStart id) := by
      refine .bind (.read _) fun found ↦ ?_
      cases found with
      | none => exact .pure _
      | some template => exact .bind (calm_createTask _ _ _ _ _ _) fun _ ↦ .pure _
    exact .bind (.read _) fun _ ↦ .bind (.each fun id _ ↦ hstamp _ _ id) fun _ ↦
      .bind (reads_checkDeps _ _ _).within fun _ ↦ .bind (reads_checkPrintRecipients _).within fun _ ↦
        calm_createTask _ _ _ _ _ _
  | login uid hostTz forceAdmin =>
    refine .bind (.write fun s ↦ ?_) fun _ ↦ (reads_requireUser _).within
    split_ifs <;> exact calm_of_same rfl rfl rfl
  | _ =>
    repeat' first
      | exact .pure _
      | exact .read _
      | exact .require _ _
      | exact .lift _
      | exact .check _ _
      | exact (reads_demand _ _).within
      | exact (reads_nextPosition _).within
      | exact (reads_requireUser _).within
      | exact (reads_requireTask _).within
      | exact (reads_requireBoard _).within
      | exact (reads_requireTemplate _).within
      | exact (reads_requireProgram _).within
      | exact (reads_checkDeps _ _ _).within
      | exact (reads_checkPrintRecipients _).within
      | exact (reads_checkProgram _ _).within
      | exact (reads_templateInput _ _ _ _ _).within
      | exact calm_createTask _ _ _ _ _ _
      | exact hwrite (fun _ ↦ rfl) (fun _ ↦ rfl) fun _ ↦ rfl
      | exact calm_writeTask _ fun _ ↦ rfl
      | refine .bind ?_ fun _ ↦ ?_

end Taskologic.Daemon
