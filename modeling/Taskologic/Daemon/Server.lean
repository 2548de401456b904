import Taskologic.Daemon.Transfer
import Taskologic.Library.Interleaving

/-!
# The requests, section by section

A request goes through one section under the lock after another: a `Query` reads, an `Update` is one of the
transactions of `Handlers`. Between two sections the lock is free, so what an earlier section has loaded
may be out of date when a later one uses it. `handle` is what a session's request does, `tickOnce` one pass of
the scheduler, and `importFile` an import by the operator. All of them are threads of a pool, and
`semantics` runs their sections.

Scope. Requests that change nothing and those about printing are left out, and so is what the clients are
told. What a request answers is kept as far as its own last section returns it. Each section reads the clock
itself; where the source reads it once for several sections the readings happen to agree.
-/

set_option autoImplicit false
set_option relaxedAutoImplicit false

namespace Taskologic.Daemon

open Taskologic.Core Taskologic.Library

/-! ### Sections -/

/-- A section that only reads, with the type of what it finds. -/
inductive Query : Type → Type where
  | board (id : BoardId) : Query Board
  | columnBoard (column : ColumnId) : Query BoardId
  /-- There are tasks in the column. -/
  | columnBusy (column : ColumnId) : Query Bool
  | task (id : TaskId) : Query Task
  | taskByShortId (id : ShortId) : Query (Option Task)
  | template (id : TemplateId) : Query Template
  | program (id : ProgramId) : Query Program
  | run (id : RunId) : Query Run
  | runningChildren (board : Board) (root : Task) : Query (List Task)
  | tasksDueForArchive : Query (List Task)
  | tasksDueForPurge : Query (List Task)
  /-- Repetitions that are due, each with its next firing. -/
  | dueRepeats : Query (List (Task × Option Instant))
  | autoStartDue : Query (List Task)

/-- What a query finds. -/
def Query.work {α : Type} (outside : Outside) : Query α → Work α
  | .board id => requireBoard id
  | .columnBoard column => do
    let found ← Tx.read fun s ↦ s.columnBoard column
    let holder ← Tx.require found (.notFound .column)
    pure holder.id
  | .columnBusy column => Tx.read fun s ↦ s.tasks.any fun row ↦ row.columnId == column
  | .task id => requireTask id
  | .taskByShortId id => Tx.read fun s ↦ (s.tasks.find? fun row ↦ row.shortId == id).map s.hydrate
  | .template id => requireTemplate id
  | .program id => requireProgram id
  | .run id => requireRun id
  | .runningChildren seen root => Tx.read fun s ↦ s.runningChildren seen root
  | .tasksDueForArchive => Tx.read fun s ↦ s.tasksDueForArchive outside.now
  | .tasksDueForPurge => Tx.read fun s ↦ s.tasksDueForPurge outside.now
  | .dueRepeats => Tx.read fun s ↦ (s.dueRepeats outside.now).map fun due ↦
      (due.1, due.2.nextFireAfter (outside.zones due.2.tz) outside.now)
  | .autoStartDue => Tx.read fun s ↦ s.autoStartDue outside.now

/-- A section that changes the store, with the type of what it answers. What a request loaded in earlier
sections is among the arguments. -/
inductive Update : Type → Type where
  | createBoard (owner : Uid) (req : CreateBoard) : Update Board
  | saveBoard (actor : Uid) (before : Board) (req : UpdateBoard) : Update Board
  | removeBoard (actor : Uid) (board : BoardId) : Update Unit
  | appendColumn (actor : Uid) (board : Board) (name : Text) : Update Unit
  | nameColumn (actor : Uid) (board : Board) (column : ColumnId) (name : Text) : Update Unit
  | reorderColumns (board : Board) (order : List ColumnId) : Update Unit
  | setColumnSort (column : ColumnId) (sortByDue : Bool) : Update Unit
  | dropColumn (actor : Uid) (board : Board) (plan : ColumnRemoval) : Update Unit
  | joinBoard (actor : Uid) (board : Board) (uid : Uid) : Update Unit
  | leaveBoard (actor : Uid) (board : Board) (uid : Uid) (unassign : Bool) : Update (List TaskId)
  | setAdmin (uid : Uid) (isAdmin : Bool) : Update Unit
  | updateTimezone (uid : Uid) (timezone : Tz) : Update Unit
  | login (uid : Uid) (hostTz : Tz) (forceAdmin : Bool) : Update User
  | makeTask (actor : Uid) (board : Board) (column : ColumnId) (draft : TaskDraft) : Update Task
  | saveTask (actor : Uid) (board : Board) (task : Task) (draft : TaskDraft) : Update Task
  | moveTaskBy (actor : Option Uid) (board : Board) (task : Task) (destination : ColumnId)
      (position : Option ℤ) (overrideDeps : Bool) (answer : Option Text) : Update Task
  | giveAnswer (board : Board) (task : Task) (answer : Text) : Update Task
  | tickItem (actor : Uid) (board : Board) (task : Task) (index : ℕ) (done : Bool) : Update Task
  | deleteTask (actor : Uid) (board : Board) (task : Task) : Update Task
  | purge (actor : Option Uid) (board : BoardId) (task : TaskId) : Update Unit
  | bringBack (actor : Uid) (board : Board) (task : Task) (destination : ColumnId) : Update Task
  | setExcludeFromStats (task : TaskId) (excluded : Bool) : Update Task
  | endRepeat (actor : Uid) (board : Board) (task : Task) : Update Task
  /-- That a scan was carried out. -/
  | noteScan (actor : Uid) (board : BoardId) (task : TaskId) (action : ScanAction) : Update Unit
  | makeTemplate (actor : Uid) (board : Board) (name : Text) (draft : TaskDraft)
      (options : TemplateOptions) : Update Template
  | saveTemplate (actor : Uid) (board : Board) (template : TemplateId) (name : Text)
      (draft : TaskDraft) (options : TemplateOptions) : Update Template
  | dropTemplate (actor : Uid) (board : Board) (template : TemplateId) : Update Unit
  | createFromTemplate (actor : Uid) (board : Board) (template : TemplateId) (column : ColumnId)
      (draft : TaskDraft) : Update Task
  | makeProgram (actor : Uid) (board : Board) (draft : ProgramDraft) : Update Program
  | saveProgram (actor : Uid) (board : Board) (program : ProgramId) (draft : ProgramDraft) :
      Update Program
  | dropProgram (actor : Uid) (board : Board) (program : ProgramId) : Update Unit
  | startProgram (actor : Uid) (board : Board) (program : Program) (column : ColumnId)
      (startAt : Option Instant) (fanOut : List (Text × List Text)) : Update Task
  | cancel (actor : Uid) (board : Board) (run : Run) (deleteOpenTasks : Bool) : Update (List Task)
  | archive (board : Board) (task : Task) : Update Task
  | advanceRepeat (task : TaskId) (next : Option Instant) : Update Unit
  | spawnRepeat (board : Board) (firstCol : ColumnId) (task : Task) : Update Task
  | importEverything (file : ImportFile) (wholeServer : Bool) (clash : Clash) : Update Unit

/-- What an update does. -/
def Update.work {α : Type} (outside : Outside) : Update α → Work α
  | .createBoard owner req => Daemon.createBoard outside owner req
  | .saveBoard actor before req => Daemon.saveBoard outside actor before req
  | .removeBoard actor board => Daemon.removeBoard outside actor board
  | .appendColumn actor board name => Daemon.appendColumn outside actor board name
  | .nameColumn actor board column name => Daemon.nameColumn outside actor board column name
  | .reorderColumns board order => Daemon.reorderColumns board order
  | .setColumnSort column sortByDue => Daemon.setColumnSort column sortByDue
  | .dropColumn actor board plan => Daemon.dropColumn outside actor board plan
  | .joinBoard actor board uid => Daemon.joinBoard outside actor board uid
  | .leaveBoard actor board uid unassign => Daemon.leaveBoard outside actor board uid unassign
  | .setAdmin uid isAdmin => Daemon.setAdmin uid isAdmin
  | .updateTimezone uid timezone => Daemon.updateTimezone uid timezone
  | .login uid hostTz forceAdmin => Daemon.login uid hostTz forceAdmin
  | .makeTask actor board column draft => Daemon.makeTask outside actor board column draft
  | .saveTask actor board task draft => Daemon.saveTask outside actor board task draft
  | .moveTaskBy actor board task destination position overrideDeps answer =>
    Daemon.moveTaskBy outside actor board task destination position overrideDeps answer
  | .giveAnswer board task answer => Daemon.giveAnswer outside board task answer
  | .tickItem actor board task index done => Daemon.tickItem outside actor board task index done
  | .deleteTask actor board task => Daemon.deleteTask outside actor board task
  | .purge actor board task => Daemon.purge outside actor board task
  | .bringBack actor board task destination => Daemon.bringBack outside actor board task destination
  | .setExcludeFromStats task excluded => Daemon.setExcludeFromStats task excluded
  | .endRepeat actor board task => Daemon.endRepeat outside actor board task
  | .noteScan actor board task action =>
    recordEvent board task actor (.scanApplied action) outside.now
  | .makeTemplate actor board name draft options =>
    Daemon.makeTemplate outside actor board name draft options
  | .saveTemplate actor board template name draft options =>
    Daemon.saveTemplate outside actor board template name draft options
  | .dropTemplate actor board template => Daemon.dropTemplate outside actor board template
  | .createFromTemplate actor board template column draft =>
    Daemon.createFromTemplate outside actor board template column draft
  | .makeProgram actor board draft => Daemon.makeProgram outside actor board draft
  | .saveProgram actor board program draft => Daemon.saveProgram outside actor board program draft
  | .dropProgram actor board program => Daemon.dropProgram outside actor board program
  | .startProgram actor board program column startAt fanOut =>
    Daemon.startProgram outside actor board program column startAt fanOut
  | .cancel actor board run deleteOpenTasks =>
    Daemon.cancel outside board run deleteOpenTasks actor
  | .archive board task => Daemon.archive outside board task
  | .advanceRepeat task next => Daemon.advanceRepeat task next
  | .spawnRepeat board firstCol task => Daemon.spawnRepeat outside board firstCol task
  | .importEverything file wholeServer clash => Daemon.importEverything outside file wholeServer clash

/-- One section under the lock. -/
inductive Section (α : Type) where
  | read (query : Query α)
  | write (update : Update α)

def Section.work {α : Type} (outside : Outside) : Section α → Work α
  | .read query => query.work outside
  | .write update => update.work outside

/-- Every section is a transaction. -/
def semantics : Semantics Section AppError Outside Store where
  run body outside s := commit (body.work outside) s

/-- The daemon with the requests that are under way. -/
abbrev Server (ρ : Type) : Type 1 := Pool Section AppError Store ρ

/-- What a request does, one section after another. -/
abbrev Call (ρ : Type) : Type 1 := Thread Section AppError ρ

def ask {α : Type} (query : Query α) : Call α := Thread.call (.read query)

def run {α : Type} (update : Update α) : Call α := Thread.call (.write update)

/-- Goes on only when the permission matrix lets it. -/
def permit (checked : Except Denial Unit) : Call Unit := .done (checked.mapError .ofDenial)

/-! ### Loading -/

/-- A board the session may see. Anything else is not found. -/
def loadBoard (actor : Actor) (id : BoardId) : Call Board := do
  let board ← ask (.board id)
  permit (checkBoard .view actor board)
  pure board

def boardOfColumn (actor : Actor) (column : ColumnId) : Call Board := do
  let board ← ask (.columnBoard column)
  loadBoard actor board

/-- Goes on only when the board is visible; otherwise what is on it is not found. -/
def visible (actor : Actor) (board : Board) (what : Missing) : Call Unit :=
  .done ((checkBoard .view actor board).mapError fun _ ↦ .notFound what)

def loadTask (actor : Actor) (id : TaskId) : Call (Board × Task) := do
  let task ← ask (.task id)
  let board ← ask (.board task.boardId)
  visible actor board .task
  pure (board, task)

def loadTemplate (actor : Actor) (id : TemplateId) : Call (Board × Template) := do
  let template ← ask (.template id)
  let board ← ask (.board template.boardId)
  visible actor board .template
  pure (board, template)

def loadProgram (actor : Actor) (id : ProgramId) : Call (Board × Program) := do
  let program ← ask (.program id)
  let board ← ask (.board program.boardId)
  visible actor board .program
  pure (board, program)

def loadRun (actor : Actor) (id : RunId) : Call (Board × Run) := do
  let run ← ask (.run id)
  let board ← ask (.board run.boardId)
  visible actor board .run
  pure (board, run)

/-- The column a request names, or the leftmost one. -/
def chooseColumn (board : Board) : Option ColumnId → Call ColumnId
  | some column =>
    if board.hasColumn column then pure column else .fail (.badRequest (.columnNotOnBoard column))
  | none =>
    match board.firstColumn with
    | some column => pure column.id
    | none => .fail (.badRequest .noColumns)

/-! ### Answers and scans -/

/-- Why a scan was not carried out. -/
inductive Refusal where
  | notOnRoot
  | nothingRunning
  | noQuestion
  | notAnAnswer
  | answeredAlready
  | state (refusal : ScanRefusal)
  deriving DecidableEq, Repr

inductive ScanOutcome where
  | applied (task : Task) (action : ScanAction) (movedTo : ColumnId)
  | unknownTask
  | noPermission
  | refused (reason : Refusal)
  | badScan (reason : ScanParseError)
  | blockedByDependencies (task : TaskId) («open» : List TaskId)
  | answered (task : Task) (answer : Text)
  | finishedChildren (root : Task) (finished : ℕ)
  deriving DecidableEq, Repr

/-- The question a task carries. -/
def Task.question (task : Task) : Option Question := task.program.bind StepRef.question

/-- An unfinished task is finished with the answer; a finished one that waits for an answer gets it. -/
def answerQuestion (actor : Actor) (board : Board) (task : Task) (answer : Text) : Call Task :=
  match Task.question task with
  | none => .fail (.badRequest .noQuestion)
  | some question =>
    if (question.canonical answer).isNone then .fail (.badRequest (.notAnAnswer answer))
    else if task.isDone board = false then
      run (.moveTaskBy actor.uid board task board.finishedCol none false answer)
    else run (.giveAnswer board task answer)

/-- Finishes one of a root's running tasks. Open dependencies hold it back. -/
def finishChild (actor : Actor) (board : Board) (child : Task) : Call Bool := do
  let moved ← (run (.moveTaskBy actor.uid board child board.finishedCol none false none)).attempt
  match moved with
  | .ok _ => pure true
  | .error (.blocked _) => pure false
  | .error error => .fail error

/-- The stop code on a run's root finishes whatever of the run is being worked on right now. -/
def finishChildren (actor : Actor) (board : Board) (task : Task) : Call ScanOutcome :=
  if task.program.any StepRef.isRoot = false then pure (.refused .notOnRoot)
  else do
    let running ← ask (.runningChildren board task)
    if running = [] then pure (.refused .nothingRunning)
    else
      let finished ← Thread.each (finishChild actor board) running
      run (.noteScan actor.uid board.id task.id .finishChildren)
      let root ← ask (.task task.id)
      pure (.finishedChildren root (finished.count true))

/-- The move a scan comes down to. -/
def scanMove (actor : Actor) (board : Board) (task : Task) (action : ScanAction)
    (answer : Option Text) : Call ScanOutcome :=
  match scanTarget action board task with
  | .error refusal => pure (.refused (.state refusal))
  | .ok target => do
    let moved ← (run (.moveTaskBy actor.uid board task target none false answer)).attempt
    match moved with
    | .ok moved =>
      run (.noteScan actor.uid board.id task.id action)
      pure (.applied moved action target)
    | .error (.blocked deps) => pure (.blockedByDependencies task.id deps)
    | .error error => .fail error

/-- An answer code. On a task that is finished and waiting that is the whole scan; otherwise it finishes the
task with the answer in hand. -/
def scanAnswer (actor : Actor) (board : Board) (task : Task) (action : ScanAction) :
    Call ScanOutcome :=
  match Task.question task with
  | none => pure (.refused .noQuestion)
  | some question =>
    match question.answerFor action with
    | none => pure (.refused .notAnAnswer)
    | some answer =>
      if task.isDone board then
        if task.program.any StepRef.pendingQuestion = false then pure (.refused .answeredAlready)
        else do
          let answered ← answerQuestion actor board task answer
          run (.noteScan actor.uid board.id task.id action)
          pure (.answered answered answer)
      else scanMove actor board task action answer

/-- What a scan that parses and may be made does. -/
def scanTask (actor : Actor) (board : Board) (task : Task) (action : ScanAction) :
    Call ScanOutcome :=
  match action with
  | .finishChildren => finishChildren actor board task
  | .startPause | .finish => scanMove actor board task action none
  | .yes | .no | .choice _ => scanAnswer actor board task action

def scan (actor : Actor) (payload : Text) : Call ScanOutcome :=
  match ScanPayload.parse payload with
  | .error reason => pure (.badScan reason)
  | .ok parsed => do
    let found ← ask (.taskByShortId parsed.shortId)
    match found with
    | none => pure .unknownTask
    | some task => do
      let board ← ask (.board task.boardId)
      if checkTask .move actor board task = .ok () then scanTask actor board task parsed.action
      else pure .noPermission

/-! ### Requests -/

/-- What a session may ask for that changes the store. -/
inductive Request where
  | createBoard (req : CreateBoard)
  | updateBoard (req : UpdateBoard)
  | deleteBoard (board : BoardId)
  | addColumn (board : BoardId) (name : Text)
  | renameColumn (column : ColumnId) (name : Text)
  | reorderColumns (board : BoardId) (order : List ColumnId)
  | setColumnSort (column : ColumnId) (sortByDue : Bool)
  | removeColumn (column : ColumnId) (moveTasksTo : Option ColumnId)
      (replacements : List (ColumnRole × ColumnId))
  | addMember (board : BoardId) (uid : Uid)
  | removeMember (board : BoardId) (uid : Uid) (unassign : Bool)
  | setAdmin (uid : Uid) (isAdmin : Bool)
  | createTask (board : BoardId) (column : Option ColumnId) (draft : TaskDraft)
  | updateTask (task : TaskId) (version : ℕ) (draft : TaskDraft)
  | moveTask (task : TaskId) (destination : ColumnId) (position : Option ℤ) (overrideDeps : Bool)
      (answer : Option Text)
  | answerQuestion (task : TaskId) (answer : Text)
  | setChecklistItem (task : TaskId) (index : ℕ) (done : Bool)
  | deleteTask (task : TaskId)
  | purgeTask (task : TaskId)
  | restoreTask (task : TaskId)
  | setExcludeFromStats (task : TaskId) (excluded : Bool)
  | createTemplate (board : BoardId) (name : Text) (draft : TaskDraft) (options : TemplateOptions)
  | updateTemplate (template : TemplateId) (name : Text) (draft : TaskDraft)
      (options : TemplateOptions)
  | createFromTemplate (template : TemplateId) (column : Option ColumnId) (draft : TaskDraft)
  | deleteTemplate (template : TemplateId)
  | createProgram (board : BoardId) (draft : ProgramDraft)
  | updateProgram (program : ProgramId) (draft : ProgramDraft)
  | deleteProgram (program : ProgramId)
  | startProgram (program : ProgramId) (column : Option ColumnId) (startAt : Option Instant)
      (fanOut : List (Text × List Text))
  | cancelRun (run : RunId) (deleteOpen : Bool)
  | stopRepeat (task : TaskId)
  | scan (payload : Text)
  | setTimezone (timezone : Tz)
  deriving DecidableEq, Repr

/-- What a request is answered with. -/
inductive Response where
  | board (board : Board)
  | task (task : Task)
  | template (template : Template)
  | program (program : Program)
  | scan (outcome : ScanOutcome)
  | done
  deriving DecidableEq, Repr

/-- The update touches more than the lock and the privacy of a board. -/
def UpdateBoard.settings (req : UpdateBoard) : Bool :=
  req.name.isSome || req.archiveAfterSecs.isSome || req.purgeDeletedAfterSecs.isSome ||
    req.cardFields.isSome || !req.roles.isEmpty

/-- What an update of a board needs, field by field. -/
def permitUpdate (actor : Actor) (before : Board) (req : UpdateBoard) : Call Unit := do
  if req.isLocked.isSome then permit (checkBoard .toggleLock actor before) else pure ()
  if req.isPrivate.isSome then permit (checkBoard .togglePrivate actor before) else pure ()
  if req.settings || req.isLocked.isNone && req.isPrivate.isNone then
    permit (checkBoard .editSettings actor before)
  else pure ()

/-- The board after its columns changed, if it is still there. -/
def columnsChanged (actor : Actor) (board : BoardId) : Call Response := do
  let board ← loadBoard actor board
  pure (.board board)

/-- What a request does, with the permission of a board for managing its columns. -/
def manageColumns (actor : Actor) (board : Board) : Call Unit :=
  permit (checkBoard .manageColumns actor board)

def handle (actor : Actor) : Request → Call Response
  | .createBoard req => do
    let board ← run (.createBoard actor.uid req)
    pure (.board board)
  | .updateBoard req => do
    -- An administrator outside a private board may unlock it, so the checks are per field.
    let before ← ask (.board req.boardId)
    permitUpdate actor before req
    let after ← run (.saveBoard actor.uid before req)
    pure (.board after)
  | .deleteBoard id => do
    let board ← ask (.board id)
    permit (checkBoard .deleteBoard actor board)
    run (.removeBoard actor.uid board.id)
    pure .done
  | .addColumn id name => do
    let board ← loadBoard actor id
    manageColumns actor board
    run (.appendColumn actor.uid board name)
    columnsChanged actor id
  | .renameColumn column name => do
    let board ← boardOfColumn actor column
    manageColumns actor board
    run (.nameColumn actor.uid board column name)
    columnsChanged actor board.id
  | .reorderColumns id order => do
    let board ← loadBoard actor id
    manageColumns actor board
    run (.reorderColumns board order)
    columnsChanged actor id
  | .setColumnSort column sortByDue => do
    let board ← boardOfColumn actor column
    manageColumns actor board
    run (.setColumnSort column sortByDue)
    columnsChanged actor board.id
  | .removeColumn column moveTasksTo replacements => do
    let board ← boardOfColumn actor column
    manageColumns actor board
    let hasTasks ← ask (.columnBusy column)
    let plan ← .done ((planColumnRemoval board column hasTasks moveTasksTo replacements).mapError
      .ofBoard)
    run (.dropColumn actor.uid board plan)
    columnsChanged actor board.id
  | .addMember id uid => do
    let board ← loadBoard actor id
    permit (checkBoard .manageMembers actor board)
    run (.joinBoard actor.uid board uid)
    let _ ← loadBoard actor id
    pure .done
  | .removeMember id uid unassign => do
    let board ← loadBoard actor id
    permit (checkBoard .manageMembers actor board)
    Thread.check (uid ≠ board.ownerUid) (.badRequest .ownerStays)
    let _ ← run (.leaveBoard actor.uid board uid unassign)
    let _ ← loadBoard actor id
    pure .done
  | .setAdmin uid isAdmin => do
    permit (ownerOrAdmin actor.isAdmin (text "grant or revoke admin"))
    Thread.check (uid = actor.uid → isAdmin = true) (.badRequest .ownAdminFlag)
    run (.setAdmin uid isAdmin)
    pure .done
  | .createTask id column draft => do
    let board ← loadBoard actor id
    permit (checkBoard .addTask actor board)
    let column ← chooseColumn board column
    let task ← run (.makeTask actor.uid board column draft)
    pure (.task task)
  | .updateTask id version draft => do
    let (board, task) ← loadTask actor id
    permit (checkTask .edit actor board task)
    Thread.check (task.version = version) (.conflict task)
    let task ← run (.saveTask actor.uid board task draft)
    pure (.task task)
  | .moveTask id destination position overrideDeps answer => do
    let (board, task) ← loadTask actor id
    permit (checkTask .move actor board task)
    let moved ← run (.moveTaskBy actor.uid board task destination position overrideDeps answer)
    pure (.task moved)
  | .answerQuestion id answer => do
    let (board, task) ← loadTask actor id
    permit (checkTask .move actor board task)
    let task ← Daemon.answerQuestion actor board task answer
    pure (.task task)
  | .setChecklistItem id index done => do
    let (board, task) ← loadTask actor id
    permit (checkTask .move actor board task)
    let task ← run (.tickItem actor.uid board task index done)
    pure (.task task)
  | .deleteTask id => do
    let (board, task) ← loadTask actor id
    permit (checkTask .delete actor board task)
    Thread.check (task.isArchived = false) (.badRequest .alreadyArchived)
    let task ← run (.deleteTask actor.uid board task)
    pure (.task task)
  | .purgeTask id => do
    let (board, task) ← loadTask actor id
    permit (checkTask .purge actor board task)
    Thread.check (task.isArchived = true) (.badRequest .purgeNeedsArchive)
    run (.purge actor.uid board.id task.id)
    pure .done
  | .restoreTask id => do
    let (board, task) ← loadTask actor id
    permit (checkTask .restore actor board task)
    Thread.check (task.isArchived = true) (.badRequest .notArchived)
    match restoreColumn board task with
    | none => .fail (.badRequest .noColumns)
    | some destination => do
      let task ← run (.bringBack actor.uid board task destination)
      pure (.task task)
  | .setExcludeFromStats id excluded => do
    let (board, task) ← loadTask actor id
    permit (checkTask .edit actor board task)
    let task ← run (.setExcludeFromStats task.id excluded)
    pure (.task task)
  | .createTemplate id name draft options => do
    let board ← loadBoard actor id
    permit (checkBoard .addTask actor board)
    let template ← run (.makeTemplate actor.uid board name draft options)
    pure (.template template)
  | .updateTemplate id name draft options => do
    let (board, template) ← loadTemplate actor id
    permit (checkTemplateManage actor board template.ownerUid)
    let template ← run (.saveTemplate actor.uid board template.id name draft options)
    pure (.template template)
  | .createFromTemplate id column draft => do
    let (board, template) ← loadTemplate actor id
    permit (checkBoard .addTask actor board)
    let column ← chooseColumn board column
    let task ← run (.createFromTemplate actor.uid board template.id column draft)
    pure (.task task)
  | .deleteTemplate id => do
    let (board, template) ← loadTemplate actor id
    permit (checkTemplateManage actor board template.ownerUid)
    run (.dropTemplate actor.uid board template.id)
    pure .done
  | .createProgram id draft => do
    let board ← loadBoard actor id
    permit (checkBoard .addTask actor board)
    let program ← run (.makeProgram actor.uid board draft)
    pure (.program program)
  | .updateProgram id draft => do
    let (board, before) ← loadProgram actor id
    permit (checkProgramManage actor board before.ownerUid)
    let program ← run (.saveProgram actor.uid board before.id draft)
    pure (.program program)
  | .deleteProgram id => do
    let (board, program) ← loadProgram actor id
    permit (checkProgramManage actor board program.ownerUid)
    run (.dropProgram actor.uid board program.id)
    pure .done
  | .startProgram id column startAt fanOut => do
    let (board, program) ← loadProgram actor id
    permit (checkBoard .addTask actor board)
    let column ← chooseColumn board column
    let root ← run (.startProgram actor.uid board program column startAt fanOut)
    pure (.task root)
  | .cancelRun id deleteOpen => do
    let (board, stored) ← loadRun actor id
    permit (checkRunCancel actor board stored.startedBy)
    Thread.check (stored.isActive = true) (.badRequest .runOver)
    let _ ← run (.cancel actor.uid board stored deleteOpen)
    pure .done
  | .stopRepeat id => do
    let (board, task) ← loadTask actor id
    Thread.check (task.repeats.isSome = true) (.badRequest .noRepetition)
    let task ← run (.endRepeat actor.uid board task)
    pure (.task task)
  | .scan payload => do
    let outcome ← Daemon.scan actor payload
    pure (.scan outcome)
  | .setTimezone timezone => do
    run (.updateTimezone actor.uid timezone)
    pure .done

/-! ### Without a session -/

def archiveFinished : Call Unit := do
  let due ← ask .tasksDueForArchive
  let _ ← Thread.each (fun task ↦ do
    let board ← ask (.board task.boardId)
    run (.archive board task)) due
  pure ()

/-- Deleted tasks past their board's retention period go for good. -/
def purgeDeleted : Call Unit := do
  let due ← ask .tasksDueForPurge
  let _ ← Thread.each (fun task ↦ do
    let board ← ask (.board task.boardId)
    run (.purge none board.id task.id)) due
  pure ()

/-- A repetition that is due. While the task is not done it waits for its next occurrence. -/
def fireRepeat (due : Task × Option Instant) : Call Unit := do
  let (task, next) := due
  let board ← ask (.board task.boardId)
  if task.isDone board = false then run (.advanceRepeat task.id next)
  else
    match board.firstColumn with
    | none => pure ()
    | some firstCol => do
      let _ ← run (.spawnRepeat board firstCol.id task)
      pure ()

def fireRepeats : Call Unit := do
  let due ← ask .dueRepeats
  let _ ← Thread.each fireRepeat due
  pure ()

/-- Moves a task into the started column with nobody at the keyboard. One that cannot go is left. -/
def startTask (task : Task) : Call Unit := do
  let board ← ask (.board task.boardId)
  let _ ← (run (.moveTaskBy none board task board.startedCol none false none)).attempt
  pure ()

def autoStart : Call Unit := do
  let due ← ask .autoStartDue
  let _ ← Thread.each startTask due
  pure ()

/-- One pass of the scheduler. -/
def tickOnce : Call Unit := do
  archiveFinished
  purgeDeleted
  fireRepeats
  autoStart

/-- Everything that may be under way: a request of a session, a login, a pass of the scheduler, the
reading of a file. -/
inductive Job where
  | request (actor : Actor) (req : Request)
  | login (uid : Uid) (hostTz : Tz) (forceAdmin : Bool)
  | tick
  | importFile (file : ImportFile) (wholeServer : Bool) (clash : Clash)

def Job.call : Job → Call Response
  | .request actor req => handle actor req
  | .login uid hostTz forceAdmin => do
    let _ ← run (.login uid hostTz forceAdmin)
    pure .done
  | .tick => do
    tickOnce
    pure .done
  | .importFile file wholeServer clash => do
    run (.importEverything file wholeServer clash)
    pure .done

/-- A server with jobs to do. -/
def serve (s : Store) (jobs : List Job) : Server Response := ⟨s, jobs.map Job.call⟩

end Taskologic.Daemon
