import Taskologic.Daemon.Accounts

/-!
# Rules for the engine

The hooks of programs write to the store in a few ways: they make tasks and link them, they date and bump rows of
tasks, they note what becomes of a link, they move the root, they add to the slips, and what else they write is about
runs, dependencies and the log. A relation between stores that such writes keep to is `PlanWithin`, and every hook
keeps to it (`PlanWithin.afterDelete`, `answerTask`, `start`), and with them the sections that call the hooks. Only the
hook of a move also writes due dates and pauses; a relation that allows these is `EngineWithin`. What runs never touch
is left alone by taking for the relation that it is the same before and after.

A relation that says nothing of links and of where a task stands is easier to check: `EngineKeeps`.
-/

set_option autoImplicit false
set_option relaxedAutoImplicit false

namespace Taskologic.Daemon

open Taskologic.Core Taskologic.Library

/-! ### What the engine may write -/

/-- The part of a store that only the making of tasks, writes to their rows and new slips change when a
program runs. -/
structure Kept where
  users : List User
  boards : List Board
  tasks : List TaskRow
  assignees : List (TaskId × Uid)
  repeats : List RepeatRow
  templates : List Template
  programs : List Program
  slips : List SlipRow
  nextBoard : BoardId
  nextColumn : ColumnId
  nextTask : TaskId

def Store.kept (s : Store) : Kept where
  users := s.users
  boards := s.boards
  tasks := s.tasks
  assignees := s.assignees
  repeats := s.repeats
  templates := s.templates
  programs := s.programs
  slips := s.slips
  nextBoard := s.nextBoard
  nextColumn := s.nextColumn
  nextTask := s.nextTask

/-- A row without its place, its dates and its version. -/
def lasting (row : TaskRow) : TaskRow :=
  { row with columnId := 0, position := 0, startAt := none, dueAt := none, finishedAt := none, version := 0 }

/-- A row without its dates and its version. -/
def undated (row : TaskRow) : TaskRow := { row with startAt := none, dueAt := none, version := 0 }

/-- A row without its start and its version. -/
def unstarted (row : TaskRow) : TaskRow := { row with startAt := none, version := 0 }

/-- What a run remembers of a task for good. -/
def TaskLink.asMade (link : TaskLink) : TaskLink :=
  { link with pausedAt := none, skipped := false, asked := false, answer := none }

/-- What a run remembers of a task, skips and questions apart. -/
def TaskLink.unsettled (link : TaskLink) : TaskLink := { link with skipped := false, asked := false, answer := none }

theorem id_of_lasting {row row' : TaskRow} (h : lasting row' = lasting row) : row'.id = row.id := by
  have hid : (lasting row').id = (lasting row).id := by rw [h]
  exact hid

/-- A relation between stores that whatever a program writes keeps to, due dates and pauses apart. -/
structure PlanWithin (outside : Outside) (board : Board) (R : Store → Store → Prop) : Prop where
  /-- Runs, dependencies, the log and the history may be anything. -/
  beside : ∀ s s', s'.kept = s.kept → s'.links = s.links → R s s'
  slips : ∀ s slip, R s { s with slips := s.slips ++ [slip] }
  rows : ∀ s task f, (∀ row, unstarted (f row) = unstarted row) → R s (s.modifyTask task f)
  make : ∀ column draft creator, draft.repeats = none →
    Tx.Within R (createTask outside board column draft creator none)
  link : ∀ link, Tx.Within R (linkTask link)
  /-- A skip or a question. -/
  settle : ∀ s task f, (∀ link, (f link).unsettled = link.unsettled) → R s (s.modifyLink task f)
  close : ∀ run, Tx.Within R (finishRoot outside board run)

/-- A relation between stores that whatever a program writes keeps to. -/
structure EngineWithin (outside : Outside) (board : Board) (R : Store → Store → Prop) : Prop where
  /-- Runs, dependencies, the log and the history may be anything. -/
  beside : ∀ s s', s'.kept = s.kept → s'.links = s.links → R s s'
  slips : ∀ s slip, R s { s with slips := s.slips ++ [slip] }
  rows : ∀ s task f, (∀ row, undated (f row) = undated row) → R s (s.modifyTask task f)
  make : ∀ column draft creator, draft.repeats = none →
    Tx.Within R (createTask outside board column draft creator none)
  link : ∀ link, Tx.Within R (linkTask link)
  /-- A pause, a skip or a question. -/
  note : ∀ s task f, (∀ link, (f link).asMade = link.asMade) → R s (s.modifyLink task f)
  close : ∀ run, Tx.Within R (finishRoot outside board run)

namespace PlanWithin

variable {outside : Outside} {board : Board} {R : Store → Store → Prop} {run : Run}

theorem write (h : PlanWithin outside board R) {f : Store → Store}
    (hf : ∀ s, (f s).kept = s.kept ∧ (f s).links = s.links) : Tx.Within R (Tx.write f : Work Unit) :=
  .write fun s ↦ h.beside s _ (hf s).1 (hf s).2

theorem recordEvent (h : PlanWithin outside board R) (on : BoardId) (task : Option TaskId)
    (actor : Option Uid) (kind : EventKind) (now : Instant) :
    Tx.Within R (recordEvent on task actor kind now) := h.write fun _ ↦ ⟨rfl, rfl⟩

theorem date (h : PlanWithin outside board R) (task : TaskId) {f : TaskRow → TaskRow}
    (hf : ∀ row, unstarted (f row) = unstarted row) :
    Tx.Within R (Tx.write fun s ↦ s.modifyTask task f : Work Unit) := .write fun s ↦ h.rows s task f hf

/-- A row is bumped after something beside the rows is written. -/
theorem bump [IsTrans Store R] (h : PlanWithin outside board R) (task : TaskId) {f : Store → Store}
    (hf : ∀ s, R s (f s)) : Tx.Within R (Tx.write fun s ↦ (f s).bumpVersion task : Work Unit) :=
  .write fun s ↦ IsTrans.trans _ _ _ (hf s) (h.rows _ task _ fun _ ↦ rfl)

/-! ### Carrying out a plan -/

variable [Std.Refl R] [IsTrans Store R]

theorem addDep (h : PlanWithin outside board R) (task dep : TaskId) : Tx.Within R (addDep task dep) :=
  .bind (reads_demand _ _).within fun _ ↦
    h.bump task (f := fun s ↦ { s with deps := insertNew s.deps (task, dep) }) fun s ↦ h.beside s _ rfl rfl

theorem createStep (h : PlanWithin outside board R) (creation : Creation) :
    Tx.Within R (createStep outside board run creation) := by
  refine .bind (.require _ _) fun step ↦ .bind (h.make _ _ _ rfl) fun task ↦
    .bind (h.link _) fun _ ↦ ?_
  have hrest := Tx.Within.bind (R := R) (reads_requireTask task.id).within fun task ↦
    Tx.Within.pure (creation, task)
  exact .ite (fun _ ↦ .bind (h.addDep _ _) fun _ ↦ hrest) fun _ ↦ hrest

theorem printSheets (h : PlanWithin outside board R) (create : List Creation) (created : List Task) :
    Tx.Within R (printSheets board run create created) := by
  refine .bind (.each fun index _ ↦ .bind (.require _ _) fun step ↦ ?_) fun _ ↦ .pure _
  cases created.filter fun task ↦ task.program.any fun link ↦ link.step == step.key with
  | nil => exact .pure _
  | cons first rest =>
    refine .bind (reads_requireTask _).within fun root ↦ .bind (.each fun rule _ ↦ ?_) fun _ ↦ .pure _
    refine .each fun uid _ ↦ .bind (.read _) fun owed ↦ .ite (fun _ ↦ ?_) fun _ ↦ .pure _
    exact .bind (.write fun s ↦ h.slips s _) fun _ ↦ .pure _

theorem dateTask (h : PlanWithin outside board R) (id : TaskId) :
    Tx.Within R (dateTask outside board id) := by
  refine .bind (reads_requireTask _).within fun task ↦ .ite (fun _ ↦ ?_) fun _ ↦ .pure _
  refine .bind ?_ fun dated ↦ .bind (h.recordEvent _ _ _ _ _) fun _ ↦ .pure _
  exact .bind (h.date _ fun _ ↦ rfl) fun _ ↦ (reads_requireTask _).within

theorem askQuestion (h : PlanWithin outside board R) (ask : Option TaskId) :
    Tx.Within R (askQuestion ask) := by
  cases ask with
  | none => exact .pure _
  | some task =>
    refine .bind ?_ fun _ ↦ .bind (reads_requireTask _).within fun _ ↦ .pure _
    exact h.bump task (f := fun s ↦ s.modifyLink task fun link ↦ { link with asked := true })
      fun s ↦ h.settle s _ _ fun _ ↦ rfl

theorem recordAnswer (h : PlanWithin outside board R) (answered : Option (TaskId × Text)) :
    Tx.Within R (recordAnswer outside board answered) := by
  cases answered with
  | none => exact .pure _
  | some given =>
    refine .bind ?_ fun _ ↦ .bind (h.recordEvent _ _ _ _ _) fun _ ↦
      .bind (reads_requireTask _).within fun _ ↦ .pure _
    exact h.bump given.1
      (f := fun s ↦ s.modifyLink given.1 fun link ↦ { link with asked := true, answer := given.2 })
      fun s ↦ h.settle s _ _ fun _ ↦ rfl

theorem carryOut (h : PlanWithin outside board R) (plan : Plan) :
    Tx.Within R (carryOut outside board run plan) := by
  refine .bind (.each fun creation _ ↦ h.createStep creation) fun made ↦
    .bind (h.printSheets _ _) fun prints ↦ .bind (.each fun id _ ↦ h.dateTask id) fun dated ↦
      .bind (h.askQuestion _) fun asked ↦ .bind (h.recordAnswer _) fun answered ↦
        .bind (reads_changedRoot _ _).within fun root ↦ ?_
  refine .ite (fun _ ↦ .bind (h.close _) fun _ ↦ ?_) fun _ ↦ .bind (.pure _) fun _ ↦ ?_
  all_goals exact .ite (fun _ ↦ .bind (h.write fun _ ↦ ⟨rfl, rfl⟩) fun _ ↦ .pure _) fun _ ↦ .pure _

theorem apply (h : PlanWithin outside board R) (event : RunEvent) (tz : Tz) :
    Tx.Within R (apply outside board run event tz) :=
  .bind (h.write fun _ ↦ ⟨rfl, rfl⟩) fun _ ↦ .bind (.read _) fun plan ↦ h.carryOut plan

/-! ### The hooks -/

theorem createRun (h : PlanWithin outside board R) (program : Program) (root : TaskId) (startedBy : Uid)
    (column : ColumnId) : Tx.Within R (createRun outside program root startedBy column) :=
  .bind (reads_demand _ _).within fun _ ↦ .bind (.read _) fun _ ↦ .bind (h.write fun _ ↦ ⟨rfl, rfl⟩) fun _ ↦
    (reads_requireRun _).within

theorem start (h : PlanWithin outside board R) (program : Program) (starter : User) (column : ColumnId)
    (startAt : Option Instant) (fanOut : List (Text × List Text)) :
    Tx.Within R (start outside board program starter column startAt fanOut) :=
  .bind (.lift _) fun _ ↦ .bind (.require _ _) fun _ ↦ .bind (h.make _ _ _ rfl) fun _ ↦
    .bind (h.createRun _ _ _ _) fun _ ↦ .bind (h.link _) fun _ ↦
      .bind (h.recordEvent _ _ _ _ _) fun _ ↦ .bind (h.apply _ _) fun _ ↦
        .bind (reads_requireTask _).within fun _ ↦ .pure _

theorem raise (h : PlanWithin outside board R) (id : RunId) (event : Option RunEvent) :
    Tx.Within R (raise outside board id event) := by
  cases event with
  | none => exact .pure _
  | some event =>
    have happly (run : Run) (tz : Tz) : Tx.Within R (Daemon.apply outside board run event tz) :=
      h.apply event tz
    have hrest := Tx.Within.bind (R := R) (reads_requireRun id).within fun run ↦
      Tx.Within.bind (.read fun s : Store ↦ s.starterTz run.startedBy) fun tz ↦ happly run tz
    exact .ite (fun _ ↦ .bind (h.write fun _ ↦ ⟨rfl, rfl⟩) fun _ ↦ hrest) fun _ ↦ hrest

theorem afterDelete (h : PlanWithin outside board R) (task : Task) :
    Tx.Within R (afterDelete outside board task) := by
  refine .bind (.read _) fun link ↦ ?_
  cases link with
  | none => exact .pure _
  | some link =>
    refine .bind (reads_requireRun _).within fun run ↦ .ite (fun _ ↦ .pure _) fun _ ↦ ?_
    exact .bind (.write fun s ↦ h.settle s _ _ fun _ ↦ rfl) fun _ ↦ .bind (.read _) fun tz ↦ h.apply _ _

theorem answerTask (h : PlanWithin outside board R) (task : Task) (answer : Text) :
    Tx.Within R (answerTask outside board task answer) :=
  .bind (.read _) fun _ ↦ .bind (.require _ _) fun _ ↦ .bind (.require _ _) fun _ ↦
    .bind (reads_requireRun _).within fun _ ↦ .bind (.check _ _) fun _ ↦ .bind (.check _ _) fun _ ↦
      .bind (.require _ _) fun _ ↦ .bind (.read _) fun _ ↦ h.apply _ _

theorem afterRestore (h : PlanWithin outside board R) (task : Task) : Tx.Within R (afterRestore task) :=
  .bind (.read _) fun _ ↦ .ite (fun _ ↦ .write fun s ↦ h.settle s _ _ fun _ ↦ rfl) fun _ ↦ .pure _

/-! ### The sections that call them -/

omit [IsTrans Store R] in
theorem noteMove (h : PlanWithin outside board R) (actor : Option Uid) (task : TaskId)
    (plan : MovePlan) : Tx.Within R (noteMove outside actor board task plan) := by
  refine .ite (fun _ ↦ h.recordEvent _ _ _ _ _) fun _ ↦ ?_
  cases actor with
  | some uid => exact h.write fun _ ↦ ⟨rfl, rfl⟩
  | none => exact .pure _

theorem giveAnswer (h : PlanWithin outside board R) (task : Task) (answer : Text) :
    Tx.Within R (giveAnswer outside board task answer) :=
  .bind (h.answerTask _ _) fun _ ↦ (reads_requireTask _).within

theorem startProgram (h : PlanWithin outside board R) (actor : Uid) (program : Program)
    (column : ColumnId) (startAt : Option Instant) (fanOut : List (Text × List Text)) :
    Tx.Within R (startProgram outside actor board program column startAt fanOut) :=
  .bind (reads_checkProgram _ _).within fun _ ↦ .bind (reads_requireUser _).within fun _ ↦
    .bind (h.start _ _ _ _ _) fun _ ↦ .pure _

theorem deleteTask (h : PlanWithin outside board R) (actor : Uid) (task : Task)
    (hdelete : Tx.Within R (softDeleteTask outside task)) :
    Tx.Within R (deleteTask outside actor board task) :=
  .bind hdelete fun _ ↦ .bind (h.recordEvent _ _ _ _ _) fun _ ↦ .bind (h.afterDelete _) fun _ ↦
    .pure _

theorem cancel (h : PlanWithin outside board R) (deleteOpenTasks : Bool) (actor : Uid)
    (hdelete : ∀ task, Tx.Within R (softDeleteTask outside task)) :
    Tx.Within R (cancel outside board run deleteOpenTasks actor) := by
  refine .bind (h.write fun _ ↦ ⟨rfl, rfl⟩) fun _ ↦ .bind (h.recordEvent _ _ _ _ _) fun _ ↦
    .ite (fun _ ↦ .bind (.read _) fun tasks ↦ .each fun task _ ↦ ?_) fun _ ↦ .pure _
  exact .bind (hdelete task) fun task ↦ .bind (h.recordEvent _ _ _ _ _) fun _ ↦ .pure _

end PlanWithin

/-! ### The hook of a move -/

namespace EngineWithin

variable {outside : Outside} {board : Board} {R : Store → Store → Prop}

theorem plan (h : EngineWithin outside board R) : PlanWithin outside board R where
  beside := h.beside
  slips := h.slips
  rows s task f hf := h.rows s task f fun row ↦ congrArg (fun row : TaskRow ↦ { row with dueAt := none }) (hf row)
  make := h.make
  link := h.link
  settle s task f hf := h.note s task f fun link ↦
    congrArg (fun link : TaskLink ↦ { link with pausedAt := none }) (hf link)
  close := h.close

variable [Std.Refl R] [IsTrans Store R]

theorem writeDue (h : EngineWithin outside board R) (task : Task) (due : Option (Option Instant)) :
    Tx.Within R (writeDue outside board task due) := by
  cases due with
  | none => exact .pure _
  | some due =>
    refine .bind ?_ fun changed ↦ .bind (h.plan.recordEvent _ _ _ _ _) fun _ ↦ .pure _
    exact .bind (.write fun s ↦ h.rows s _ _ fun _ ↦ rfl) fun _ ↦ (reads_requireTask _).within

theorem afterMove (h : EngineWithin outside board R) (task : Task) (plan : MovePlan)
    (answer : Option Text) : Tx.Within R (afterMove outside board task plan answer) := by
  refine .bind (.read _) fun link ↦ ?_
  cases link with
  | none => exact .pure _
  | some link =>
    refine .bind (reads_requireRun _).within fun run ↦ .ite (fun _ ↦ .pure _) fun _ ↦ ?_
    exact .bind (h.writeDue _ _) fun dated ↦ .bind (.write fun s ↦ h.note s _ _ fun _ ↦ rfl) fun _ ↦
      .bind (h.plan.raise _ _) fun _ ↦ .pure _

/-- What comes after the move itself. -/
theorem moveTaskBy (h : EngineWithin outside board R) (actor : Option Uid) (task : Task)
    (destination : ColumnId) (position : Option ℤ) (overrideDeps : Bool) (answer : Option Text)
    (hmove : ∀ openDeps plan, planMove board task destination openDeps overrideDeps outside.now = .ok plan →
      Tx.Within R (applyMove outside task plan position)) :
    Tx.Within R (moveTaskBy outside actor board task destination position overrideDeps answer) := by
  have hrest (moved : Task) (plan : MovePlan) := Tx.Within.bind (R := R) (h.afterMove moved plan answer) fun _ ↦
    (reads_requireTask moved.id).within
  refine .bind (.read _) fun openDeps s moved s' hok ↦ ?_
  obtain ⟨plan, _, hplan, hok⟩ := Tx.bind_eq_ok.mp hok
  obtain ⟨found, hplanned, hsame⟩ := Tx.lift_eq_ok.mp hplan
  obtain ⟨rfl, rfl⟩ := Prod.ext_iff.mp hsame
  refine Tx.Within.bind (hmove openDeps found (mapError_eq_ok.mp hplanned)) (fun moved ↦ ?_) _ _ _ hok
  exact .bind (h.plan.noteMove _ _ _) fun _ ↦
    .ite (fun _ ↦ .bind (h.plan.recordEvent _ _ _ _ _) fun _ ↦ hrest moved found) fun _ ↦ hrest moved found

end EngineWithin

/-! ### Relations that links and moves do not matter to -/

/-- A relation between stores that whatever a program writes keeps to, whatever it does to links and wherever it puts
a task. -/
structure EngineKeeps (outside : Outside) (board : Board) (R : Store → Store → Prop) : Prop where
  /-- Runs, links, dependencies, the log and the history may be anything. -/
  runs : ∀ s s', s'.kept = s.kept → R s s'
  slips : ∀ s slip, R s { s with slips := s.slips ++ [slip] }
  rows : ∀ s task f, (∀ row, lasting (f row) = lasting row) → R s (s.modifyTask task f)
  make : ∀ column draft creator, draft.repeats = none →
    Tx.Within R (createTask outside board column draft creator none)

namespace EngineKeeps

variable {outside : Outside} {board : Board} {R : Store → Store → Prop} {run : Run}

theorem write (h : EngineKeeps outside board R) {f : Store → Store} (hf : ∀ s, (f s).kept = s.kept) :
    Tx.Within R (Tx.write f : Work Unit) := .write fun s ↦ h.runs s _ (hf s)

variable [Std.Refl R] [IsTrans Store R]

theorem applyMove (h : EngineKeeps outside board R) (task : Task) (plan : MovePlan) (position : Option ℤ) :
    Tx.Within R (applyMove outside task plan position) := by
  refine .bind (reads_movedPosition _ _ _).within fun p ↦ .bind (reads_demand _ _).within fun _ ↦
    .bind (.write fun s ↦ h.rows s _ _ fun _ ↦ rfl) fun _ ↦ ?_
  exact .ite (fun _ ↦ .bind (h.write fun _ ↦ rfl) fun _ ↦ (reads_requireTask _).within)
    fun _ ↦ (reads_requireTask _).within

theorem finishRoot (h : EngineKeeps outside board R) : Tx.Within R (finishRoot outside board run) := by
  refine .bind (reads_requireTask _).within fun root ↦ .ite (fun _ ↦ ?_) fun _ ↦ .pure _
  exact .bind (.lift _) fun plan ↦ .bind (h.applyMove _ _ _) fun moved ↦
    .bind (h.write fun _ ↦ rfl) fun _ ↦ .pure _

theorem within (h : EngineKeeps outside board R) : EngineWithin outside board R where
  beside s s' hkept _ := h.runs s s' hkept
  slips := h.slips
  rows s task f hf := h.rows s task f fun row ↦ by
    have hsame := congrArg lasting (hf row)
    exact hsame
  make := h.make
  link _ := .bind (reads_demand _ _).within fun _ ↦ h.write fun _ ↦ rfl
  note s _ _ _ := h.runs s _ rfl
  close _ := h.finishRoot

theorem plan (h : EngineKeeps outside board R) : PlanWithin outside board R := h.within.plan

theorem moveTaskBy (h : EngineKeeps outside board R) (actor : Option Uid) (task : Task)
    (destination : ColumnId) (position : Option ℤ) (overrideDeps : Bool) (answer : Option Text) :
    Tx.Within R (moveTaskBy outside actor board task destination position overrideDeps answer) :=
  h.within.moveTaskBy _ _ _ _ _ _ fun _ _ _ ↦ h.applyMove _ _ _

end EngineKeeps

end Taskologic.Daemon
