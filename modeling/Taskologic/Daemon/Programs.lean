import Taskologic.Daemon.FanOut
import Taskologic.Daemon.Repo

/-!
# What the program engine decides, done to the database

`react` says what an event on a run means; `apply` does it, inside the transaction the event arrived in.
It goes through the parts of the plan one after another: the tasks to make (`createStep`), the group
sheets (`printSheets`), the dates (`dateTask`), the question (`askQuestion`, `recordAnswer`) and the root
(`finishRoot`). The hooks `afterMove`, `afterDelete`, `answerTask` and `afterRestore` are what the handlers
call when a task has moved, was deleted, is answered or came back; `start` begins a run and `cancel` ends
it.

Scope. A group sheet is kept as the task it is about and the group it lists; what is on the paper is left
out.
-/

set_option autoImplicit false
set_option relaxedAutoImplicit false

namespace Taskologic.Daemon

open Taskologic.Core Taskologic.Library

/-! ### Runs and their links -/

def requireRun (id : RunId) : Work Run := do
  let run ← Tx.read fun s ↦ s.run id
  Tx.require run (.notFound .run)

/-- A run of a program whose root task is there, with the steps as they are right now. -/
def createRun (outside : Outside) (program : Program) (root : TaskId) (startedBy : Uid)
    (column : ColumnId) : Work Run := do
  demand (fun s ↦ (s.program program.id).isSome && (s.board program.boardId).isSome &&
    (s.taskRow root).isSome) .internal
  let id ← Tx.read fun s ↦ s.nextRun
  let run : Run :=
    { id
      programId := program.id
      boardId := program.boardId
      rootTask := root
      startedBy
      columnId := column
      name := program.name
      steps := program.steps
      createdAt := outside.now
      startedAt := none
      finishedAt := none
      cancelledAt := none }
  Tx.write fun s ↦ { s with runs := s.runs ++ [run], nextRun := id + 1 }
  requireRun id

/-- Each moment of a run is written once. -/
def startRun (outside : Outside) (id : RunId) : Work Unit :=
  Tx.write fun s ↦ s.modifyRun id fun run ↦
    { run with startedAt := run.startedAt.or (some outside.now) }

def finishRun (outside : Outside) (id : RunId) : Work Unit :=
  Tx.write fun s ↦ s.modifyRun id fun run ↦
    { run with finishedAt := run.finishedAt.or (some outside.now) }

def cancelRun (outside : Outside) (id : RunId) : Work Unit :=
  Tx.write fun s ↦ s.modifyRun id fun run ↦
    { run with cancelledAt := run.cancelledAt.or (some outside.now) }

/-- What a run remembers about a task when it is new. -/
def newLink (run : RunId) (task : TaskId) (step : Text) (iteration : ℕ) (param : Option Text)
    (counts : Bool) (timeLimit : Option Offset) (question : Option Question) : TaskLink where
  taskId := task
  run := run
  step := step
  iteration := iteration
  param := param
  counts := counts
  timeLimit := timeLimit
  pausedAt := none
  skipped := false
  question := question
  asked := false
  answer := none

/-- Makes a task one of the run's. -/
def linkTask (link : TaskLink) : Work Unit := do
  demand (fun s ↦ (s.taskLink link.taskId).isNone && (s.taskRow link.taskId).isSome &&
    (s.run link.run).isSome) .internal
  Tx.write fun s ↦ { s with links := s.links ++ [link] }

/-- So that an open editor notices that the task changed under it. -/
def Store.bumpVersion (s : Store) (task : TaskId) : Store :=
  s.modifyTask task fun row ↦ { row with version := row.version + 1 }

/-- The question was asked and nobody has answered. -/
def setAsked (task : TaskId) : Work Unit :=
  Tx.write fun s ↦ (s.modifyLink task fun link ↦ { link with asked := true }).bumpVersion task

def setAnswer (task : TaskId) (answer : Text) : Work Unit :=
  Tx.write fun s ↦
    (s.modifyLink task fun link ↦ { link with asked := true, answer := answer }).bumpVersion task

def setPausedAt (task : TaskId) (pausedAt : Option Instant) : Work Unit :=
  Tx.write fun s ↦ s.modifyLink task fun link ↦ { link with pausedAt }

def setSkipped (task : TaskId) (skipped : Bool) : Work Unit :=
  Tx.write fun s ↦ s.modifyLink task fun link ↦ { link with skipped }

def setDueAt (task : TaskId) (due : Option Instant) : Work Task := do
  Tx.write fun s ↦ s.modifyTask task fun row ↦
    { row with dueAt := due, version := row.version + 1 }
  requireTask task

def setStartAt (task : TaskId) (start : Instant) : Work Task := do
  Tx.write fun s ↦ s.modifyTask task fun row ↦
    { row with startAt := start, version := row.version + 1 }
  requireTask task

/-- One more entry, if it is not there. -/
def insertNew {α : Type} [DecidableEq α] (entries : List α) (entry : α) : List α :=
  if entry ∈ entries then entries else entries ++ [entry]

/-- One more dependency on a task that exists: the root waiting for a step the run has just made. -/
def addDep (task dep : TaskId) : Work Unit := do
  demand (fun s ↦ (s.taskRow task).isSome && (s.taskRow dep).isSome) .internal
  Tx.write fun s ↦ ({ s with deps := insertNew s.deps (task, dep) }).bumpVersion task

/-! ### Effects -/

/-- One sheet for a group of tasks a fan-out step made at once. -/
structure Sheet where
  root : TaskId
  group : List TaskId
  deriving DecidableEq, Repr

/-- What a caller has to tell the clients about once the transaction holds. -/
structure Effects where
  /-- Tasks the run made. -/
  created : List Task
  /-- Tasks the run dated, asked about or answered, or the root with one more dependency. -/
  changed : List Task
  /-- The root, moved to the finished column by the run itself. -/
  finishedRoot : Option Task
  /-- Group sheets to queue, one for each person. -/
  prints : List (Uid × Sheet)
  deriving DecidableEq, Repr

/-- `Effects::default`. -/
def Effects.default : Effects := ⟨[], [], none, []⟩

/-! ### Carrying out a plan -/

/-- UTC. -/
def Tz.utc : Tz := ⟨text "UTC"⟩

/-- The zone of whoever started a run. -/
def Store.starterTz (s : Store) (uid : Uid) : Tz := ((s.user uid).map User.timezone).getD Tz.utc

/-- What the engine sees of a task a run has made. -/
def stepTask (board : Board) (link : TaskLink) (task : Task) : StepTask where
  step := link.step
  iteration := link.iteration
  param := link.param
  taskId := task.id
  done := task.isDone board
  skipped := link.skipped
  counts := link.counts
  pendingAnswer := link.pendingAnswer

/-- Everything a run has made so far, as the engine sees it. -/
def Store.stepTasks (s : Store) (board : Board) (run : RunId) : List StepTask :=
  (s.runTasks run).map fun (link, task) ↦ stepTask board link task

/-- What the engine says an event means for a run. -/
def Store.planFor (s : Store) (board : Board) (run : Run) (event : RunEvent) (now : Instant)
    (zone : Zone) : Plan :=
  react run.steps (s.stepTasks board run.id) run.startedAt.isSome event now zone

/-- Makes one task of a plan. -/
def createStep (outside : Outside) (board : Board) (run : Run) (creation : Creation) :
    Work (Creation × Task) := do
  let step ← Tx.require run.steps[creation.step]? .internal
  let draft := draftFor step run.startedBy board creation.startAt creation.dependsOn creation.param
  let task ← createTask outside board run.columnId draft run.startedBy none
  linkTask (newLink run.id task.id step.key creation.iteration creation.param creation.counts
    step.timeLimit step.question)
  if creation.counts then addDep run.rootTask task.id else pure ()
  -- Read again, so that the task carries its place in the run.
  let task ← requireTask task.id
  pure (creation, task)

/-- Who a rule prints for, each once. -/
def recipientsOf (rule : PrintRule) (task : Task) (board : Board) : List Uid :=
  let named := match rule.recipients with
    | .assignees => if task.assignees = [] then [task.createdBy] else task.assignees
    | .creator => [task.createdBy]
    | .users uids => uids
  ((named.filter board.isMember).insertionSort (· ≤ ·)).dedup

/-- `PrintRule::sent_kind`: the moment and the paper. The lead time of a rule is no part of its name. -/
def sentKind (rule : PrintRule) : PrintWhen × SlipKind :=
  match rule.when with
  | .onCreate => (.onCreate, rule.slip)
  | .onStart => (.onStart, rule.slip)
  | .beforeDue _ => (.beforeDue ⟨0, .minutes⟩, rule.slip)

/-- One sheet for one person, who has not had it and is known. -/
def printSheet (root : Task) (group : List Task) (rule : PrintRule) (createdAt : Instant)
    (uid : Uid) : Work (Option (Uid × Sheet)) := do
  let owed ← Tx.read fun s ↦
    !s.slipSent root.id uid (sentKind rule) createdAt && (s.user uid).isSome
  if owed then
    Tx.write fun s ↦ { s with slips := s.slips ++ [⟨root.id, uid, sentKind rule, createdAt⟩] }
    pure (some (uid, ⟨root.id, group.map fun task ↦ task.id⟩))
  else pure none

/-- The sheets of one rule. -/
def printRuleSheets (board : Board) (root first : Task) (group : List Task) (rule : PrintRule) :
    Work (List (Option (Uid × Sheet))) :=
  Tx.each (printSheet root group rule first.createdAt) (recipientsOf rule first board)

/-- The sheets of one group: one for each person who gets one, never one for each task. -/
def printGroupSheets (board : Board) (run : Run) (created : List Task) (index : ℕ) :
    Work (List (Uid × Sheet)) := do
  let step ← Tx.require run.steps[index]? .internal
  let group := created.filter fun task ↦ task.program.any fun link ↦ link.step == step.key
  match group with
  | [] => pure []
  | first :: _ => do
    let root ← requireTask run.rootTask
    let rules := step.print.filter fun rule ↦ rule.slip == .sheet && rule.when == .onCreate
    let sheets ← Tx.each (printRuleSheets board root first group) rules
    pure (sheets.flatten.filterMap id)

/-- The steps that made a group this time. -/
def sheetSteps (run : Run) (create : List Creation) : List ℕ :=
  ((create.map Creation.step).filter fun index ↦
    (run.steps[index]?).any fun step ↦ step.fanOut.isSome).dedup

def printSheets (board : Board) (run : Run) (create : List Creation) (created : List Task) :
    Work (List (Uid × Sheet)) := do
  let prints ← Tx.each (printGroupSheets board run created) (sheetSteps run create)
  pure prints.flatten

/-- Dates a task that waited for the root to start, unless it has a start date. -/
def dateTask (outside : Outside) (board : Board) (id : TaskId) : Work (Option Task) := do
  let task ← requireTask id
  if task.startAt = none then
    let dated ← setStartAt id outside.now
    recordEvent board.id id none (.taskEdited [.startAt none outside.now]) outside.now
    pure (some dated)
  else pure none

def askQuestion : Option TaskId → Work (Option Task)
  | some task => do
    setAsked task
    let task ← requireTask task
    pure (some task)
  | none => pure none

def recordAnswer (outside : Outside) (board : Board) : Option (TaskId × Text) → Work (Option Task)
  | some (task, answer) => do
    setAnswer task answer
    recordEvent board.id task none (.questionAnswered answer) outside.now
    let task ← requireTask task
    pure (some task)
  | none => pure none

/-- The root with the dependencies it got. -/
def changedRoot (run : Run) (create : List Creation) : Work (Option Task) :=
  if create.any Creation.counts then do
    let root ← requireTask run.rootTask
    pure (some root)
  else pure none

/-- The run moves its root into the finished column and is over. The planner is told that nothing is
open. -/
def finishRoot (outside : Outside) (board : Board) (run : Run) : Work (Option Task) := do
  let root ← requireTask run.rootTask
  if root.isArchived = false ∧ root.columnId ≠ board.finishedCol then
    let plan ← Tx.lift ((planMove board root board.finishedCol [] false outside.now).mapError .ofMove)
    let moved ← applyMove outside root plan none
    finishRun outside run.id
    pure (some moved)
  else pure none

/-- Does what a plan says. -/
def carryOut (outside : Outside) (board : Board) (run : Run) (plan : Plan) : Work Effects := do
  let made ← Tx.each (createStep outside board run) plan.create
  let created := made.map Prod.snd
  let prints ← printSheets board run plan.create created
  let dated ← Tx.each (dateTask outside board) plan.setStart
  let asked ← askQuestion plan.ask
  let answered ← recordAnswer outside board plan.answered
  let root ← changedRoot run plan.create
  let finishedRoot ← if plan.finishRoot then finishRoot outside board run else pure none
  if plan.endRun then finishRun outside run.id else pure ()
  pure
    { created
      changed := dated.filterMap id ++ asked.toList ++ answered.toList ++ root.toList
      finishedRoot
      prints }

/-- Ask the engine what an event means for a run and do it. -/
def apply (outside : Outside) (board : Board) (run : Run) (event : RunEvent) (tz : Tz) :
    Work Effects := do
  Tx.write fun s ↦ { s with reactions := s.reactions ++ [⟨run.id, event⟩] }
  let plan ← Tx.read fun s ↦ s.planFor board run event outside.now (outside.zones tz)
  carryOut outside board run plan

/-! ### The hooks -/

/-- Start a run of a program: the root task, then everything that comes with it. -/
def start (outside : Outside) (board : Board) (program : Program) (starter : User)
    (column : ColumnId) (startAt : Option Instant) (fanOut : List (Text × List Text)) :
    Work (Task × Effects) := do
  let steps ← Tx.lift (withFanOut program.steps fanOut)
  let rootStep ← Tx.require (steps.find? Step.isRoot) (.badRequest .noRootStep)
  let draft := draftFor rootStep starter.uid board startAt [] none
  let root ← createTask outside board column draft starter.uid none
  let run ← createRun outside { program with steps } root.id starter.uid column
  linkTask (newLink run.id root.id rootKey 1 none false rootStep.timeLimit none)
  recordEvent board.id root.id starter.uid (.runStarted run.id) outside.now
  let effects ← apply outside board run .created starter.timezone
  let root ← requireTask root.id
  pure (root, effects)

/-- What the time limit of a step makes of the due date of its task on a move, if anything. -/
def limitedDue (board : Board) (plan : MovePlan) (link : TaskLink) (task : Task) (now : Instant) :
    Option (Option Instant) :=
  match link.timeLimit with
  | none => none
  | some limit =>
    if plan.destination = board.startedCol then
      match decide (plan.source = board.pausedCol), link.pausedAt, task.dueAt with
      | true, some paused, some due => some (some (due + (now - paused)))
      | _, _, none => some (limit.after now)
      | _, _, some _ => none
    else if plan.destination ≠ board.pausedCol ∧ plan.destination ≠ board.finishedCol ∧
        task.dueAt.isSome then
      some none
    else none

/-- Writes the due date a time limit makes. -/
def writeDue (outside : Outside) (board : Board) (task : Task) :
    Option (Option Instant) → Work (Option Task)
  | some due => do
    let changed ← setDueAt task.id due
    recordEvent board.id task.id none (.taskEdited [.dueAt task.dueAt due]) outside.now
    pure (some changed)
  | none => pure none

/-- What a move of one of its tasks means to a run, if anything. -/
def moveEvent (board : Board) (plan : MovePlan) (link : TaskLink) (run : Run) (task : TaskId)
    (answer : Option Text) : Option RunEvent :=
  if plan.destination = board.startedCol ∧ link.step = rootKey ∧ run.startedAt = none then
    some .rootStarted
  else if plan.destination = board.finishedCol then some (.finished task answer)
  else none

/-- Tells the run what happened to it. -/
def raise (outside : Outside) (board : Board) (run : RunId) : Option RunEvent → Work Effects
  | some event => do
    if event = .rootStarted then startRun outside run else pure ()
    let run ← requireRun run
    let tz ← Tx.read fun s ↦ s.starterTz run.startedBy
    apply outside board run event tz
  | none => pure .default

/-- One of a run's tasks moved. `task` is the task after the move. -/
def afterMove (outside : Outside) (board : Board) (task : Task) (plan : MovePlan)
    (answer : Option Text) : Work Effects := do
  let link ← Tx.read fun s ↦ s.taskLink task.id
  match link with
  | none => pure .default
  | some link => do
    let run ← requireRun link.run
    if run.isActive = false ∨ plan.source = plan.destination then pure .default
    else
      let dated ← writeDue outside board task (limitedDue board plan link task outside.now)
      setPausedAt task.id (if plan.destination = board.pausedCol then some outside.now else none)
      let effects ← raise outside board run.id (moveEvent board plan link run task.id answer)
      pure { effects with changed := dated.toList ++ effects.changed }

/-- One of a run's tasks was deleted: the step is skipped. -/
def afterDelete (outside : Outside) (board : Board) (task : Task) : Work Effects := do
  let link ← Tx.read fun s ↦ s.taskLink task.id
  match link with
  | none => pure .default
  | some link => do
    let run ← requireRun link.run
    if run.isActive = false then pure .default
    else
      setSkipped task.id true
      let tz ← Tx.read fun s ↦ s.starterTz run.startedBy
      apply outside board run (.deleted task.id) tz

/-- A finished task's question is answered afterwards. -/
def answerTask (outside : Outside) (board : Board) (task : Task) (answer : Text) : Work Effects := do
  let link ← Tx.read fun s ↦ s.taskLink task.id
  let link ← Tx.require (link.filter fun link ↦ link.question.isSome) (.badRequest .noQuestion)
  let question ← Tx.require link.question (.badRequest .noQuestion)
  let run ← requireRun link.run
  Tx.check (run.isActive = true) (.badRequest .programOver)
  Tx.check (link.pendingAnswer = true) (.badRequest .answeredAlready)
  let canonical ← Tx.require (question.canonical answer) (.badRequest (.notAnAnswer answer))
  let tz ← Tx.read fun s ↦ s.starterTz run.startedBy
  apply outside board run (.answered task.id canonical) tz

/-- A task came back from the archive: it is a step again. -/
def afterRestore (task : Task) : Work Unit := do
  let link ← Tx.read fun s ↦ s.taskLink task.id
  if link.isSome then setSkipped task.id false else pure ()

/-- Deletes one open task of a cancelled run. -/
def deleteOpen (outside : Outside) (board : Board) (actor : Uid) (task : Task) : Work Task := do
  let task ← softDeleteTask outside task
  recordEvent board.id task.id actor .taskDeleted outside.now
  pure task

/-- Stop a run. With `deleteOpenTasks`, the tasks it made that are still open go to the archive as
deleted. -/
def cancel (outside : Outside) (board : Board) (run : Run) (deleteOpenTasks : Bool) (actor : Uid) :
    Work (List Task) := do
  cancelRun outside run.id
  recordEvent board.id run.rootTask actor (.runCancelled run.id) outside.now
  if deleteOpenTasks then
    let tasks ← Tx.read fun s ↦ s.runTasks run.id
    Tx.each (deleteOpen outside board actor)
      ((tasks.map Prod.snd).filter fun task ↦ !task.isDone board)
  else pure []

/-- The tasks of a root's run that are in the started column. -/
def Store.runningChildren (s : Store) (board : Board) (root : Task) : List Task :=
  match s.taskLink root.id with
  | none => []
  | some link =>
    if link.step = rootKey then
      ((s.runTasks link.run).map Prod.snd).filter fun task ↦
        task.id != root.id && !task.isArchived && task.columnId == board.startedCol
    else []

end Taskologic.Daemon
