import Taskologic.Daemon.Programs

/-!
# What the requests do under the lock

The transaction of every request that changes the store. What a request loads in earlier sections comes in
as an argument and may be out of date by then. The requests themselves, section by section, are in `Server`.

Scope. What the clients are told, and the slips printed by a user's own settings, are left out.
-/

set_option autoImplicit false
set_option relaxedAutoImplicit false

namespace Taskologic.Daemon

open Taskologic.Core Taskologic.Library

/-! ### Checks that need the database -/

/-- A dependency exists and is on a board the caller may see. -/
def checkDep (uid : Uid) (dep : TaskId) : Work Unit := do
  let task ← Tx.read fun s ↦ s.task dep
  let task ← Tx.require task (.badRequest (.noDependency dep))
  let board ← requireBoard task.boardId
  Tx.check (board.isMember uid = true) (.badRequest (.noDependency dep))

/-- Dependencies must exist, be visible to the caller, and not form a cycle. -/
def checkDeps (uid : Uid) (task : TaskId) (dependsOn : List TaskId) : Work Unit :=
  if dependsOn = [] then pure ()
  else do
    let _ ← Tx.each (checkDep uid) dependsOn
    let bad ← Tx.read fun s ↦ firstCycle s.deps task dependsOn
    match bad with
    | some dep => Tx.fail (.badRequest (.cycle dep))
    | none => pure ()

/-- Somebody named has logged in before. -/
def checkKnown (reason : Uid → BadRequest) (uid : Uid) : Work Unit :=
  demand (fun s ↦ (s.user uid).isSome) (.badRequest (reason uid))

/-- The people a print rule names. -/
def namedRecipients (rule : PrintRule) : List Uid :=
  match rule.recipients with
  | .users uids => uids
  | .assignees | .creator => []

/-- Named print recipients have to be people the daemon knows. -/
def checkPrintRecipients (rules : List PrintRule) : Work Unit := do
  let _ ← Tx.each (checkKnown .cannotBePrintedFor) (rules.flatMap namedRecipients)
  pure ()

/-- The people a step assigns its tasks to by name. -/
def namedAssignees (step : Step) : List Uid :=
  match step.assign with
  | .users uids => uids
  | .starter | .nobody => []

/-- Named people of a step, assigned or printed for, have to be users. -/
def checkStepUsers (step : Step) : Work Unit := do
  let _ ← Tx.each (checkKnown (.stepNeverLoggedIn step.key)) (namedAssignees step)
  let _ ← Tx.each (checkKnown (.stepCannotBePrintedFor step.key))
    (step.print.flatMap namedRecipients)
  pure ()

/-- The core's checks, and that named people are users. -/
def checkProgram (board : Board) (draft : ProgramDraft) : Work Unit := do
  Tx.lift ((validate draft board).mapError fun error ↦ .badRequest (.program error))
  let _ ← Tx.each checkStepUsers draft.steps
  pure ()

/-- A dependency of a template is another template of the board. -/
def checkTemplateDep (id : TemplateId) (graph : List TemplateId) (dep : TemplateId) :
    Except AppError Unit := do
  ensure (dep ≠ id) (.badRequest (.template .selfDependency))
  ensure (dep ∈ graph) (.badRequest (.template (.notOnBoard dep)))

/-- The templates of a board. -/
def Store.listTemplates (s : Store) (board : BoardId) : List Template :=
  s.templates.filter fun template ↦ template.boardId == board

/-- Validates a template and strips what templates do not carry: dates and dependencies belong to one
instance. -/
def templateInput (board : Board) (id : TemplateId) (name : Text) (draft : TaskDraft)
    (options : TemplateOptions) : Work (Text × TaskDraft) := do
  Tx.check (trim name ≠ []) (.badRequest .emptyTemplateName)
  let draft := { draft with startAt := none, dueAt := none, dependsOn := [] }
  Tx.check (options.duePrefill.any tooLarge = false ∧ options.startPrefill.any tooLarge = false)
    (.badRequest (.template .prefillTooLarge))
  let templates ← Tx.read fun s ↦ s.listTemplates board.id
  Tx.lift (checkAll (checkTemplateDep id (templates.map Template.id)) options.depTemplates)
  match firstCycle (templateEdges templates) id options.depTemplates with
  | some dep => Tx.fail (.badRequest (.template (.cycle dep)))
  | none => do
    Tx.lift ((validateDraft draft board).mapError .ofTask)
    checkPrintRecipients draft.printRules
    pure (trim name, draft)

/-! ### Boards -/

/-- Somebody with a task assigned carries over as a member. -/
def carryOver (outside : Outside) (actor : Uid) (board : BoardId) (uid : Uid) : Work Unit := do
  addMember board uid
  recordEvent board none actor (.memberAdded uid) outside.now

/-- `before` is the board as it was loaded. Going private must not cut people off from work that is
already theirs. -/
def saveBoard (outside : Outside) (actor : Uid) (before : Board) (req : UpdateBoard) :
    Work Board := do
  let after ← updateBoard before req
  if before.isPrivate = false ∧ after.isPrivate = true then
    let assigned ← Tx.read fun s ↦ s.assigneesOnBoard after.id
    let _ ← Tx.each (carryOver outside actor after.id) (after.wouldLoseAccess assigned)
    pure ()
  else pure ()
  recordEvent after.id none actor .boardSettingsChanged outside.now
  requireBoard after.id

def removeBoard (outside : Outside) (actor : Uid) (board : BoardId) : Work Unit := do
  recordEvent board none actor .boardDeleted outside.now
  deleteBoard board

def appendColumn (outside : Outside) (actor : Uid) (board : Board) (name : Text) : Work Unit := do
  let column ← addColumn board name
  recordEvent board.id none actor (.columnAdded column) outside.now

def nameColumn (outside : Outside) (actor : Uid) (board : Board) (column : ColumnId)
    (name : Text) : Work Unit := do
  renameColumn board column name
  recordEvent board.id none actor (.columnRenamed column) outside.now

def dropColumn (outside : Outside) (actor : Uid) (board : Board) (plan : ColumnRemoval) :
    Work Unit := do
  removeColumn outside board plan
  recordEvent board.id none actor (.columnRemoved plan.removed plan.moveTasksTo) outside.now

def joinBoard (outside : Outside) (actor : Uid) (board : Board) (uid : Uid) : Work Unit := do
  checkKnown .neverLoggedIn uid
  addMember board.id uid
  recordEvent board.id none actor (.memberAdded uid) outside.now

/-- Whoever still has tasks assigned stays, unless they are to be unassigned. -/
def leaveBoard (outside : Outside) (actor : Uid) (board : Board) (uid : Uid) (unassign : Bool) :
    Work (List TaskId) := do
  let assigned ← Tx.read fun s ↦ s.tasksAssignedOnBoard board.id uid
  Tx.check (assigned ≠ [] → unassign = true) (.memberHasTasks assigned)
  let unassigned ← unassignOnBoard board.id uid
  removeMember board.id uid
  recordEvent board.id none actor (.memberRemoved uid unassigned) outside.now
  pure unassigned

def setAdmin (uid : Uid) (isAdmin : Bool) : Work Unit := do
  let _ ← requireUser uid
  Tx.write fun s ↦
    { s with users := s.users.map fun user ↦
        if user.uid = uid then { user with isAdmin } else user }

def updateTimezone (uid : Uid) (timezone : Tz) : Work Unit :=
  Tx.write fun s ↦
    { s with users := s.users.map fun user ↦
        if user.uid = uid then { user with timezone } else user }

/-- The first to log in becomes an administrator. -/
def login (uid : Uid) (hostTz : Tz) (forceAdmin : Bool) : Work User := do
  Tx.write fun s ↦
    if (s.user uid).isSome then
      { s with users := s.users.map fun user ↦
          if user.uid = uid then { user with isAdmin := user.isAdmin || forceAdmin } else user }
    else { s with users := s.users ++ [⟨uid, forceAdmin || s.users.isEmpty, hostTz⟩] }
  requireUser uid

/-! ### Tasks -/

def makeTask (outside : Outside) (actor : Uid) (board : Board) (column : ColumnId)
    (draft : TaskDraft) : Work Task := do
  checkDeps actor 0 draft.dependsOn
  checkPrintRecipients draft.printRules
  createTask outside board column draft actor none

/-- Saves a task. `task` is the task whose version was compared. -/
def saveTask (outside : Outside) (actor : Uid) (board : Board) (task : Task) (draft : TaskDraft) :
    Work Task := do
  Tx.lift ((validateDraft draft board).mapError .ofTask)
  checkDeps actor task.id draft.dependsOn
  checkPrintRecipients draft.printRules
  let saved ← updateTask outside task draft
  recordEvent board.id saved.id actor (.taskEdited (diff task draft)) outside.now
  pure saved

/-- The last recorded move of a task. -/
def isMoveOf (task : TaskId) (event : EventRow) : Bool :=
  event.taskId == some task && match event.kind with
    | .taskMoved _ _ => true
    | _ => false

/-- Writes down who made the last recorded move of a task. -/
def Store.nameMover (s : Store) (task : TaskId) (actor : Uid) : Store :=
  { s with events := (modifyFirst (isMoveOf task) (fun event ↦ { event with actor })
      s.events.reverse).reverse }

/-- What a move leaves in the log besides the transition. -/
def noteMove (outside : Outside) (actor : Option Uid) (board : Board) (task : TaskId)
    (plan : MovePlan) : Work Unit :=
  if plan.source = plan.destination then
    recordEvent board.id task actor .taskReordered outside.now
  else
    match actor with
    | some uid => Tx.write fun s ↦ s.nameMover task uid
    | none => pure ()

/-- A move made by somebody, or by the scheduler when there is nobody. `board` and `task` are as they
were loaded. -/
def moveTaskBy (outside : Outside) (actor : Option Uid) (board : Board) (task : Task)
    (destination : ColumnId) (position : Option ℤ) (overrideDeps : Bool) (answer : Option Text) :
    Work Task := do
  let openDeps ← Tx.read fun s ↦
    if destination = board.finishedCol then s.openDeps task.id else []
  let plan ← Tx.lift
    ((planMove board task destination openDeps overrideDeps outside.now).mapError .ofMove)
  let moved ← applyMove outside task plan position
  noteMove outside actor board task.id plan
  if plan.overrodeDeps ≠ [] then
    recordEvent board.id task.id actor (.dependencyOverridden plan.overrodeDeps) outside.now
  else pure ()
  let _ ← afterMove outside board moved plan answer
  requireTask moved.id

def giveAnswer (outside : Outside) (board : Board) (task : Task) (answer : Text) : Work Task := do
  let _ ← answerTask outside board task answer
  requireTask task.id

/-- Ticks an item of the task as it was loaded. -/
def tickItem (outside : Outside) (actor : Uid) (board : Board) (task : Task) (index : ℕ)
    (done : Bool) : Work Task := do
  let ticked ← setChecklistItem task index done
  let text := ((ticked.checklist[index]?).map ChecklistItem.text).getD []
  recordEvent board.id ticked.id actor (.checklistToggled index text done) outside.now
  pure ticked

def deleteTask (outside : Outside) (actor : Uid) (board : Board) (task : Task) : Work Task := do
  let deleted ← softDeleteTask outside task
  recordEvent board.id deleted.id actor .taskDeleted outside.now
  let _ ← afterDelete outside board deleted
  pure deleted

/-- By somebody, or by the scheduler. -/
def purge (outside : Outside) (actor : Option Uid) (board : BoardId) (task : TaskId) :
    Work Unit := do
  recordEvent board task actor .taskPurged outside.now
  purgeTask task

def bringBack (outside : Outside) (actor : Uid) (board : Board) (task : Task)
    (destination : ColumnId) : Work Task := do
  let restored ← restoreTask outside task destination
  recordEvent board.id restored.id actor (.taskRestored destination) outside.now
  afterRestore restored
  pure restored

def endRepeat (outside : Outside) (actor : Uid) (board : Board) (task : Task) : Work Task := do
  let stopped ← stopRepeat task
  recordEvent board.id stopped.id actor .repeatStopped outside.now
  pure stopped

/-! ### Templates and programs -/

def makeTemplate (outside : Outside) (actor : Uid) (board : Board) (name : Text) (draft : TaskDraft)
    (options : TemplateOptions) : Work Template := do
  -- Ids start at one, so no saved template collides with zero.
  let (name, draft) ← templateInput board 0 name draft options
  let template ← createTemplate outside board.id actor name draft options
  recordEvent board.id none actor (.templateCreated template.id) outside.now
  pure template

def saveTemplate (outside : Outside) (actor : Uid) (board : Board) (template : TemplateId)
    (name : Text) (draft : TaskDraft) (options : TemplateOptions) : Work Template := do
  let (name, draft) ← templateInput board template name draft options
  let saved ← updateTemplate template name draft options
  recordEvent board.id none actor (.templateChanged saved.id) outside.now
  pure saved

def dropTemplate (outside : Outside) (actor : Uid) (board : Board) (template : TemplateId) :
    Work Unit := do
  recordEvent board.id none actor (.templateDeleted template) outside.now
  deleteTemplate template

/-- The draft a dependency is stamped out with. -/
def stampDraft (outside : Outside) (template : Template) (anchor : Instant) : TaskDraft :=
  let startAt := template.options.startFor anchor
  let history := if template.options.dueFromAverage.isSome then
      outside.templateAverage template.id else none
  { template.draft with startAt, dueAt := template.options.dueFor anchor startAt history }

/-- Stamps out one dependency. A template deleted since it was linked is skipped. -/
def stamp (outside : Outside) (actor : Uid) (board : Board) (column : ColumnId)
    (anchors : TemplateId → Option Instant) (rootStart : Instant) (id : TemplateId) :
    Work (Option Task) := do
  let found ← Tx.read fun s ↦ s.template id
  match found with
  | none => pure none
  | some template => do
    let draft := stampDraft outside template ((anchors id).getD rootStart)
    let task ← createTask outside board column draft actor (some template.id)
    pure (some task)

/-- Stamps out what a template depends on, then the task of the draft, which depends on all of it. -/
def createFromTemplate (outside : Outside) (actor : Uid) (board : Board) (template : TemplateId)
    (column : ColumnId) (draft : TaskDraft) : Work Task := do
  let templates ← Tx.read fun s ↦ s.listTemplates board.id
  let rootStart := draft.startAt.elim outside.now fun start ↦ max start outside.now
  let anchors := prefillAnchors templates template rootStart
  let stamped ← Tx.each (stamp outside actor board column anchors rootStart)
    (expansionOrder (templateEdges templates) template)
  let deps := (stamped.filterMap id).map fun task ↦ task.id
  let dependsOn := deps.foldl insertNew draft.dependsOn
  let main := { draft with dependsOn }
  checkDeps actor 0 main.dependsOn
  checkPrintRecipients main.printRules
  createTask outside board column main actor (some template)

def makeProgram (outside : Outside) (actor : Uid) (board : Board) (draft : ProgramDraft) :
    Work Program := do
  checkProgram board draft
  let program ← createProgram outside board.id actor draft
  recordEvent board.id none actor (.programCreated program.id) outside.now
  pure program

def saveProgram (outside : Outside) (actor : Uid) (board : Board) (program : ProgramId)
    (draft : ProgramDraft) : Work Program := do
  checkProgram board draft
  let saved ← updateProgram program draft
  recordEvent board.id none actor (.programChanged saved.id) outside.now
  pure saved

def dropProgram (outside : Outside) (actor : Uid) (board : Board) (program : ProgramId) :
    Work Unit := do
  recordEvent board.id none actor (.programDeleted program) outside.now
  deleteProgram program

/-- The program is checked again on the way in: the board's members may have changed since it was
saved. -/
def startProgram (outside : Outside) (actor : Uid) (board : Board) (program : Program)
    (column : ColumnId) (startAt : Option Instant) (fanOut : List (Text × List Text)) :
    Work Task := do
  checkProgram board program.draft
  let starter ← requireUser actor
  let (root, _) ← start outside board program starter column startAt fanOut
  pure root

/-! ### The scheduler -/

def archive (outside : Outside) (board : Board) (task : Task) : Work Task := do
  let archived ← archiveTask outside.now task
  recordEvent board.id archived.id none (.taskArchived task.columnId) outside.now
  pure archived

/-- The copy of a repeating task that is done. The chain moves on: the old instance stops repeating. -/
def spawnRepeat (outside : Outside) (board : Board) (firstCol : ColumnId) (task : Task) :
    Work Task := do
  let draft := nextInstance task board outside.now
  let created ← createTask outside board firstCol draft task.createdBy task.templateId
  recordEvent board.id created.id none (.repeatSpawned task.id) outside.now
  advanceRepeat task.id none
  pure created

end Taskologic.Daemon
