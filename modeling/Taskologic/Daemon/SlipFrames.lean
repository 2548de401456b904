import Taskologic.Daemon.RepeatFrames
import Taskologic.Daemon.TaskRules

/-!
# What the sections do to the log of slips

A section leaves the log of slips as it is, adds to it, or takes out what belongs to tasks that go. Tasks
come under ids that have not been handed out before, and from then on keep the time at which they were made.
A relation between stores that such changes keep to is `SlipsKeep`, and by the rules for the sections
(`SlipsKeep.tasksWithin`) every section keeps to it: `SlipsKeep.semantics_run`.
-/

set_option autoImplicit false
set_option relaxedAutoImplicit false

namespace Taskologic.Daemon

open Taskologic.Core Taskologic.Library

/-- The log of slips with the tasks that are there, each with the time at which it was made. -/
structure Register where
  tasks : List (TaskId × Instant)
  slips : List SlipRow
  nextTask : TaskId

def Store.register (s : Store) : Register where
  tasks := s.tasks.map fun row ↦ (row.id, row.createdAt)
  slips := s.slips
  nextTask := s.nextTask

/-- Rows change, beside their ids and the time at which they were made. -/
theorem Store.register_map (s : Store) {f : TaskRow → TaskRow}
    (hf : ∀ row, (f row).id = row.id ∧ (f row).createdAt = row.createdAt) :
    ({ s with tasks := s.tasks.map f } : Store).register = s.register := by
  have hrows : (s.tasks.map f).map (fun row ↦ (row.id, row.createdAt)) =
      s.tasks.map fun row ↦ (row.id, row.createdAt) := by
    rw [List.map_map]
    exact List.map_congr_left fun row _ ↦ Prod.ext (hf row).1 (hf row).2
  simp only [Store.register, hrows]

theorem Store.register_modifyTask (s : Store) (task : TaskId) {f : TaskRow → TaskRow}
    (hf : ∀ row, (f row).id = row.id ∧ (f row).createdAt = row.createdAt) :
    (s.modifyTask task f).register = s.register := by
  refine s.register_map fun row ↦ ?_
  split_ifs
  · exact hf row
  · exact ⟨rfl, rfl⟩

/-- A relation between stores that whatever is done to the register keeps to. -/
structure SlipsKeep (R : Store → Store → Prop) : Prop where
  same : ∀ s s', s'.register = s.register → R s s'
  make : ∀ s row, row.id = s.nextTask → R s (s.insertTask row)
  print : ∀ s slip, R s { s with slips := s.slips ++ [slip] }
  drop : ∀ s gone, R s (s.dropTasks gone)

namespace SlipsKeep

variable {R : Store → Store → Prop}

theorem write (h : SlipsKeep R) {f : Store → Store} (hf : ∀ s, (f s).register = s.register) :
    Tx.Within R (Tx.write f : Work Unit) := .write fun s ↦ h.same s _ (hf s)

theorem modifyTask (h : SlipsKeep R) (task : TaskId) {f : TaskRow → TaskRow}
    (hf : ∀ row, (f row).id = row.id ∧ (f row).createdAt = row.createdAt) :
    Tx.Within R (Tx.write fun s ↦ s.modifyTask task f : Work Unit) :=
  h.write fun s ↦ s.register_modifyTask task hf

theorem setRepeat (h : SlipsKeep R) [Std.Refl R] [IsTrans Store R] (outside : Outside) (task : TaskId)
    (spec : Option RepeatSpec) : Tx.Within R (setRepeat outside task spec) := by
  cases spec with
  | none => exact h.write fun _ ↦ rfl
  | some spec => exact .bind (.lift _) fun _ ↦ h.write fun _ ↦ rfl

variable [Std.Refl R] [IsTrans Store R]

theorem writeRelations (h : SlipsKeep R) (outside : Outside) (task : TaskId) (draft : TaskDraft) :
    Tx.Within R (writeRelations outside task draft) :=
  .bind (reads_demand _ _).within fun _ ↦ .bind (h.write fun _ ↦ rfl) fun _ ↦
    .bind (reads_demand _ _).within fun _ ↦ .bind (h.write fun _ ↦ rfl) fun _ ↦ h.setRepeat _ _ _

theorem createTask (h : SlipsKeep R) (outside : Outside) (board : Board) (column : ColumnId)
    (draft : TaskDraft) (creator : Uid) (fromTemplate : Option TemplateId) :
    Tx.Within R (createTask outside board column draft creator fromTemplate) := by
  intro s task s' hrun
  simp only [Daemon.createTask, Tx.bind_eq_ok, Tx.lift_eq_ok, Tx.read_eq_ok, Tx.require_eq_ok,
    demand_eq_ok, Tx.write_eq_ok, Prod.mk.injEq, recordEvent_eq_ok, requireTask_eq_ok] at hrun
  obtain ⟨_, _, ⟨_, -, -, rfl⟩, id, _, ⟨rfl, rfl⟩, _, _, ⟨rfl, rfl⟩, _, _, ⟨shortId, -, rfl, rfl⟩,
    position, _, hposition, _, _, ⟨-, -, rfl⟩, _, _, ⟨-, rfl⟩, _, _, hrelations, _, _, ⟨-, rfl⟩, _, -,
    rfl, rfl⟩ := hrun
  obtain rfl := reads_nextPosition _ _ _ _ hposition
  exact IsTrans.trans _ _ _ (h.make s _ rfl)
    (IsTrans.trans _ _ _ (h.writeRelations _ _ _ _ _ _ hrelations) (h.same _ _ rfl))

theorem importTask (h : SlipsKeep R) (outside : Outside) (board : BoardId) (maps : Maps) (task : Task) :
    Tx.Within R (importTask outside board maps task) := by
  refine .bind (.require _ _) fun columnId s pair s' hrun ↦ ?_
  simp only [Tx.bind_eq_ok, Tx.read_eq_ok, Prod.mk.injEq] at hrun
  obtain ⟨_, _, ⟨rfl, rfl⟩, _, _, ⟨rfl, rfl⟩, hrun⟩ := hrun
  split_ifs at hrun <;>
    simp only [Tx.bind_eq_ok, Tx.pure_eq_ok, Tx.require_eq_ok, Tx.write_eq_ok, Prod.mk.injEq] at hrun
  · obtain ⟨_, _, ⟨_, -, -, rfl⟩, _, _, ⟨-, rfl⟩, -, rfl⟩ := hrun
    exact IsTrans.trans _ _ _ (h.make s _ rfl) (h.same _ _ rfl)
  · obtain ⟨_, _, ⟨-, rfl⟩, _, _, ⟨-, rfl⟩, -, rfl⟩ := hrun
    exact IsTrans.trans _ _ _ (h.make s _ rfl) (h.same _ _ rfl)

theorem tasksWithin (h : SlipsKeep R) : TasksWithin R where
  beside s s' hsame := by
    have htasks : s'.tasks = s.tasks := congrArg TaskTables.tasks hsame
    have hslips : s'.slips = s.slips := congrArg TaskTables.slips hsame
    have hnext : s'.nextTask = s.nextTask := congrArg TaskTables.nextTask hsame
    exact h.same s s' (by simp only [Store.register, htasks, hslips, hnext])
  print := h.print
  drop := h.drop
  rows s _ hf := h.same _ _ (s.register_map fun row ↦ ⟨(hf row).id, (hf row).createdAt⟩)
  create := h.createTask
  move outside task plan position :=
    .bind (reads_movedPosition _ _ _).within fun p ↦ .bind (reads_demand _ _).within fun _ ↦
      .bind (h.modifyTask _ fun _ ↦ ⟨rfl, rfl⟩) fun _ ↦
        .ite (fun _ ↦ .bind (h.write fun _ ↦ rfl) fun _ ↦ (reads_requireTask _).within)
          fun _ ↦ (reads_requireTask _).within
  restore outside task destination :=
    .bind (reads_nextPosition _).within fun _ ↦ .bind (reads_demand _ _).within fun _ ↦
      .bind (h.modifyTask _ fun _ ↦ ⟨rfl, rfl⟩) fun _ ↦ .bind (h.write fun _ ↦ rfl) fun _ ↦
        (reads_requireTask _).within
  bring := h.importTask
  shift sweep removed destination := by
    cases destination with
    | none => exact .pure _
    | some destination =>
      refine .bind (reads_nextPosition _).within fun _ ↦ .bind (reads_demand _ _).within fun _ ↦
        h.write fun s ↦ s.register_map fun row ↦ ?_
      split_ifs <;> exact ⟨rfl, rfl⟩

/-- A section keeps to it. -/
theorem semantics_run (h : SlipsKeep R) {α : Type} (body : Section α) (outside : Outside) (s : Store) :
    R s (semantics.run body outside s).2 := h.tasksWithin.semantics_run body outside s

end SlipsKeep

end Taskologic.Daemon
