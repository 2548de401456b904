import Taskologic.Core.Engine
import Taskologic.Library.Table

/-!
# The rows of a run

What a run remembers is one row for each task it made: which step and which go at it, whether the
root waits for it, where its question stands, and whether somebody deleted it. `RunState` is these
rows together with what else the engine is asked with, and `RunState.applyPlan` is what carrying out
a plan does to them. `RunState.finish` and `RunState.delete` are what happens to a run when one of
its tasks enters the finished column or is deleted: the row changes first, and the engine is asked
with the rows as they are then.

The rows have distinct task ids, all of them below the next id to be given out (`RunState.Fresh`),
and every change keeps it so.

Scope. Only what the engine reads of a task is kept. The store behind the rows, and what else a plan
does to it, is the daemon's.
-/

set_option autoImplicit false
set_option relaxedAutoImplicit false

namespace Taskologic.Core

open Library

/-- What a run knows about one task it made. -/
structure RunRow where
  taskId : TaskId
  step : Text
  iteration : ℕ
  param : Option Text
  /-- The root waits for it. -/
  counts : Bool
  /-- In the finished column or archived. -/
  done : Bool
  /-- Deleted by hand. -/
  skipped : Bool
  /-- Finished with a question. -/
  asked : Bool
  /-- How the question was answered. -/
  answer : Option Text
  deriving DecidableEq, Repr

/-- Finished, asked, and nobody has answered yet. -/
def RunRow.pendingAnswer (row : RunRow) : Bool := row.asked && row.answer.isNone

/-- The row as the engine sees it. -/
def RunRow.view (row : RunRow) : StepTask where
  step := row.step
  iteration := row.iteration
  param := row.param
  taskId := row.taskId
  done := row.done
  skipped := row.skipped
  counts := row.counts
  pendingAnswer := row.pendingAnswer

/-- A run and its rows. -/
structure RunState where
  steps : List Step
  rows : List RunRow
  /-- The root has entered the started column. -/
  started : Bool
  /-- Still reacting to what happens to its tasks. -/
  active : Bool
  /-- The column every task lands in is the finished one. -/
  landsDone : Bool
  /-- The id the next task gets. -/
  nextId : TaskId
  deriving DecidableEq, Repr

namespace RunState

/-- Everything the run has made so far, as the engine sees it. -/
def view (s : RunState) : List StepTask := s.rows.map RunRow.view

/-- Distinct task ids, all of them given out before the next one. -/
structure Fresh (s : RunState) : Prop where
  keyed : Keyed RunRow.taskId s.rows
  below : ∀ row ∈ s.rows, row.taskId < s.nextId

/-! ### Carrying out a plan -/

/-- The row of a task that was made. -/
def madeRow (s : RunState) (creation : Creation) (id : TaskId) : RunRow where
  taskId := id
  step := (s.steps[creation.step]?).elim [] Step.key
  iteration := creation.iteration
  param := creation.param
  counts := creation.counts
  done := s.landsDone
  skipped := false
  asked := false
  answer := none

/-- The rows of the tasks a plan makes. -/
def madeRows (s : RunState) (plan : Plan) : List RunRow :=
  plan.create.zipIdx.map fun (creation, index) ↦ s.madeRow creation (s.nextId + index)

/-- Where the question of a row stands after a plan. -/
def settle (plan : Plan) (row : RunRow) : RunRow :=
  match plan.answered with
  | some (task, answer) =>
    if row.taskId = task then { row with asked := true, answer := some answer }
    else { row with asked := row.asked || plan.ask == some row.taskId }
  | none => { row with asked := row.asked || plan.ask == some row.taskId }

/-- The root is done already. -/
def rootDone (s : RunState) : Bool := s.rows.any fun row ↦ row.step == rootKey && row.done

/-- The run moves its root into the finished column. -/
def closes (s : RunState) (plan : Plan) : Bool := plan.finishRoot && !s.rootDone

/-- The root enters the finished column if the run closes. -/
def closeRow (closes : Bool) (row : RunRow) : RunRow :=
  if closes ∧ row.step = rootKey then { row with done := true } else row

/-- What carrying out a plan does to the rows. -/
def applyPlan (s : RunState) (plan : Plan) : RunState :=
  { s with
    rows := (s.rows.map (settle plan) ++ s.madeRows plan).map (closeRow (s.closes plan))
    active := s.active && !s.closes plan && !plan.endRun
    nextId := s.nextId + plan.create.length }

/-- Asks the engine what an event means and does it. -/
def react (s : RunState) (event : RunEvent) (now : Instant) (zone : Zone) : RunState :=
  s.applyPlan (Core.react s.steps s.view s.started event now zone)

/-! ### Finishing and deleting -/

/-- Changes the row of one task. -/
def mapTask (s : RunState) (task : TaskId) (f : RunRow → RunRow) : RunState :=
  { s with rows := s.rows.map fun row ↦ if row.taskId = task then f row else row }

/-- The task is in the finished column now. -/
def markDone (s : RunState) (task : TaskId) : RunState :=
  s.mapTask task fun row ↦ { row with done := true }

/-- The task was deleted: it is in the archive and counts as skipped. -/
def markDeleted (s : RunState) (task : TaskId) : RunState :=
  s.mapTask task fun row ↦ { row with done := true, skipped := true }

/-- What happens to one task of a run, and when. -/
inductive TaskEvent where
  | finished (task : TaskId) (answer : Option Text) (now : Instant)
  | deleted (task : TaskId) (now : Instant)
  deriving DecidableEq, Repr

namespace TaskEvent

def task : TaskEvent → TaskId
  | finished task _ _ => task
  | deleted task _ => task

def now : TaskEvent → Instant
  | finished _ _ now => now
  | deleted _ now => now

def isFinish : TaskEvent → Bool
  | finished _ _ _ => true
  | deleted _ _ => false

/-- The event the engine is told. -/
def event : TaskEvent → RunEvent
  | finished task answer _ => .finished task answer
  | deleted task _ => .deleted task

end TaskEvent

/-- The rows when the engine is asked. A run that is over does not mark a deleted task. -/
def moved (s : RunState) : TaskEvent → RunState
  | .finished task _ _ => s.markDone task
  | .deleted task _ => if s.active then s.markDeleted task else s.markDone task

/-- What the run does about an event. One that is over does nothing. -/
def planFor (s : RunState) (zone : Zone) (e : TaskEvent) : Plan :=
  if s.active then
    Core.react s.steps (s.moved e).view s.started e.event e.now zone
  else .default

/-- The run after an event. -/
def next (zone : Zone) (s : RunState) (e : TaskEvent) : RunState :=
  (s.moved e).applyPlan (s.planFor zone e)

/-- The run after several events. -/
def after (zone : Zone) (s : RunState) (events : List TaskEvent) : RunState :=
  events.foldl (next zone) s

/-- Everything the run makes over several events. -/
def createdBy (zone : Zone) (s : RunState) : List TaskEvent → List Creation
  | [] => []
  | e :: rest => (s.planFor zone e).create ++ createdBy zone (s.next zone e) rest

@[simp] theorem after_nil (zone : Zone) (s : RunState) : s.after zone [] = s := rfl

@[simp] theorem after_cons (zone : Zone) (s : RunState) (e : TaskEvent) (rest : List TaskEvent) :
    s.after zone (e :: rest) = (s.next zone e).after zone rest := rfl

/-! ### What a change keeps -/

/-- What an event and its plan make of a row that is there. -/
def nextRow (zone : Zone) (s : RunState) (e : TaskEvent) (row : RunRow) : RunRow :=
  let moved := if row.taskId = e.task then
      { row with done := true, skipped := row.skipped || (!e.isFinish && s.active) }
    else row
  closeRow ((s.moved e).closes (s.planFor zone e)) (settle (s.planFor zone e) moved)

@[simp] theorem steps_moved (s : RunState) (e : TaskEvent) : (s.moved e).steps = s.steps := by
  cases e with
  | finished => rfl
  | deleted => simp only [moved]; split_ifs <;> rfl

@[simp] theorem nextId_moved (s : RunState) (e : TaskEvent) : (s.moved e).nextId = s.nextId := by
  cases e with
  | finished => rfl
  | deleted => simp only [moved]; split_ifs <;> rfl

@[simp] theorem active_moved (s : RunState) (e : TaskEvent) : (s.moved e).active = s.active := by
  cases e with
  | finished => rfl
  | deleted => simp only [moved]; split_ifs <;> rfl

@[simp] theorem landsDone_moved (s : RunState) (e : TaskEvent) :
    (s.moved e).landsDone = s.landsDone := by
  cases e with
  | finished => rfl
  | deleted => simp only [moved]; split_ifs <;> rfl

/-- The rows when the engine is asked: the task's row is done, and skipped if it was deleted. -/
theorem rows_moved (s : RunState) (e : TaskEvent) :
    (s.moved e).rows = s.rows.map fun row ↦
      if row.taskId = e.task then
        { row with done := true, skipped := row.skipped || (!e.isFinish && s.active) }
      else row := by
  cases e with
  | finished task answer now => simp [moved, markDone, mapTask, TaskEvent.task, TaskEvent.isFinish]
  | deleted task now =>
    simp only [moved]
    split_ifs with hactive <;>
      simp [markDone, markDeleted, mapTask, TaskEvent.task, TaskEvent.isFinish, hactive]

/-- The rows after an event: those that were there, and those of the tasks it made. -/
theorem rows_next (zone : Zone) (s : RunState) (e : TaskEvent) :
    (s.next zone e).rows = s.rows.map (s.nextRow zone e) ++
      ((s.moved e).madeRows (s.planFor zone e)).map
        (closeRow ((s.moved e).closes (s.planFor zone e))) := by
  rw [next, applyPlan, rows_moved, List.map_append, List.map_map, List.map_map]
  rfl

theorem settle_fields (plan : Plan) (row : RunRow) :
    (settle plan row).taskId = row.taskId ∧ (settle plan row).step = row.step ∧
      (settle plan row).iteration = row.iteration ∧ (settle plan row).counts = row.counts ∧
      (settle plan row).done = row.done ∧ (settle plan row).skipped = row.skipped := by
  unfold settle
  split
  · split_ifs <;> exact ⟨rfl, rfl, rfl, rfl, rfl, rfl⟩
  · exact ⟨rfl, rfl, rfl, rfl, rfl, rfl⟩

theorem closeRow_fields (closes : Bool) (row : RunRow) :
    (closeRow closes row).taskId = row.taskId ∧ (closeRow closes row).step = row.step ∧
      (closeRow closes row).iteration = row.iteration ∧
      (closeRow closes row).counts = row.counts ∧
      (closeRow closes row).skipped = row.skipped ∧
      (closeRow closes row).done = (row.done || (closes && decide (row.step = rootKey))) := by
  unfold closeRow
  split_ifs with hroot
  · simp [hroot]
  · have hopen : (closes && decide (row.step = rootKey)) = false := by
      simpa using hroot
    simp [hopen]

/-- An event never changes what a row is about. -/
theorem nextRow_fields (zone : Zone) (s : RunState) (e : TaskEvent) (row : RunRow) :
    (s.nextRow zone e row).taskId = row.taskId ∧ (s.nextRow zone e row).step = row.step ∧
      (s.nextRow zone e row).iteration = row.iteration ∧
      (s.nextRow zone e row).counts = row.counts ∧
      (s.nextRow zone e row).skipped =
        (row.skipped || (decide (row.taskId = e.task) && !e.isFinish && s.active)) ∧
      (s.nextRow zone e row).done = (row.done || decide (row.taskId = e.task) ||
        ((s.moved e).closes (s.planFor zone e) && decide (row.step = rootKey))) := by
  unfold nextRow
  by_cases htask : row.taskId = e.task <;> simp [htask, settle_fields, closeRow_fields]

/-- A row that was made is the row of a creation with an id that was not given out before. -/
theorem exists_of_mem_madeRows {s : RunState} {plan : Plan} {row : RunRow}
    (h : row ∈ s.madeRows plan) :
    ∃ creation ∈ plan.create, ∃ id, s.nextId ≤ id ∧ id < s.nextId + plan.create.length ∧
      row = s.madeRow creation id := by
  obtain ⟨⟨creation, index⟩, hmem, rfl⟩ := List.mem_map.mp h
  have hget := List.mem_zipIdx_iff_getElem?.mp hmem
  have hlt : index < plan.create.length := (List.getElem?_eq_some_iff.mp hget).1
  exact ⟨creation, List.mem_of_getElem? hget, s.nextId + index, Nat.le_add_right _ _,
    Nat.add_lt_add_left hlt _, rfl⟩

theorem taskId_madeRows (s : RunState) (plan : Plan) :
    (s.madeRows plan).map RunRow.taskId = List.range' s.nextId plan.create.length := by
  have hids : (s.madeRows plan).map RunRow.taskId =
      (plan.create.zipIdx.map Prod.snd).map (s.nextId + ·) := by
    rw [madeRows, List.map_map, List.map_map]
    rfl
  rw [hids, List.zipIdx_map_snd, List.map_add_range', Nat.add_zero]

theorem taskId_rows_next (zone : Zone) (s : RunState) (e : TaskEvent) :
    (s.next zone e).rows.map RunRow.taskId =
      s.rows.map RunRow.taskId ++ List.range' s.nextId (s.planFor zone e).create.length := by
  rw [rows_next, List.map_append, List.map_map, List.map_map]
  congr 1
  · exact List.map_congr_left fun row _ ↦ (nextRow_fields zone s e row).1
  · rw [← nextId_moved s e, ← taskId_madeRows]
    exact List.map_congr_left fun row _ ↦ (closeRow_fields _ row).1

theorem nextId_next (zone : Zone) (s : RunState) (e : TaskEvent) :
    (s.next zone e).nextId = s.nextId + (s.planFor zone e).create.length := by
  simp [next, applyPlan]

/-- Ids stay distinct and given out once. -/
theorem Fresh.next {zone : Zone} {s : RunState} (h : s.Fresh) (e : TaskEvent) :
    (s.next zone e).Fresh := by
  have hbelow : ∀ id ∈ s.rows.map RunRow.taskId, id < s.nextId := by
    simpa using h.below
  constructor
  · rw [Keyed, taskId_rows_next]
    refine List.Nodup.append h.keyed (List.nodup_range') fun id hold hnew ↦ ?_
    have hge := (List.mem_range'_1.mp hnew).1
    exact absurd (hbelow id hold) (not_lt.mpr hge)
  · intro row hrow
    have hid : row.taskId ∈ (s.next zone e).rows.map RunRow.taskId := List.mem_map_of_mem hrow
    rw [taskId_rows_next, List.mem_append, List.mem_range'_1] at hid
    rw [nextId_next]
    rcases hid with hold | hnew
    · exact (hbelow _ hold).trans_le (Nat.le_add_right _ _)
    · exact hnew.2

theorem after_append (zone : Zone) (s : RunState) (first second : List TaskEvent) :
    s.after zone (first ++ second) = (s.after zone first).after zone second :=
  List.foldl_append

end RunState

end Taskologic.Core
