import Taskologic.Daemon.Store

/-!
# The queries

The statements the daemon sends to the database, each a piece of work on the store. Those about runs and
their links are in `Programs`, with the functions that use them.

Scope. Positions are integers; where the database would find one too large for its 64 bits, the query
fails (`nextPosition`).
-/

set_option autoImplicit false
set_option relaxedAutoImplicit false

namespace Taskologic.Daemon

open Taskologic.Core Taskologic.Library

/-! ### Users and events -/

def requireUser (uid : Uid) : Work User := do
  let user ← Tx.read fun s ↦ s.user uid
  Tx.require user (.notFound (.user uid))

def recordEvent (board : BoardId) (task : Option TaskId) (actor : Option Uid) (kind : EventKind)
    (now : Instant) : Work Unit :=
  Tx.write fun s ↦ { s with events := s.events ++ [⟨board, task, actor, kind, now⟩] }

/-! ### Boards -/

def requireBoard (id : BoardId) : Work Board := do
  let board ← Tx.read fun s ↦ s.board id
  Tx.require board (.notFound .board)

/-- The first of 32 drawn short ids that no row has. -/
def freshShortId (outside : Outside) (table : ShortIdTable) (key : ℕ) (taken : List ShortId) :
    Option ShortId :=
  ((List.range 32).map fun n ↦ ShortId.fromIndex (outside.random table key n)).find? fun id ↦
    !taken.contains id

/-- By position, then by id. -/
def sortColumns (columns : List Column) : List Column :=
  columns.insertionSort fun a b ↦ a.position < b.position ∨ a.position = b.position ∧ a.id ≤ b.id

def addMember (board : BoardId) (uid : Uid) : Work Unit :=
  Tx.write fun s ↦ s.modifyBoard board fun b ↦
    { b with members := if uid ∈ b.members then b.members else b.members ++ [uid] }

def removeMember (board : BoardId) (uid : Uid) : Work Unit :=
  Tx.write fun s ↦ s.modifyBoard board fun b ↦ { b with members := b.members.filter (· != uid) }

/-- Columns are named up front and the roles referenced by index into that list. -/
structure CreateBoard where
  name : Text
  description : Text
  columns : List Text
  startedCol : ℕ
  pausedCol : ℕ
  finishedCol : ℕ
  archiveAfterSecs : ℤ
  purgeDeletedAfterSecs : ℤ
  cardFields : CardFields
  isPrivate : Bool
  isLocked : Bool
  members : List Uid
  deriving DecidableEq, Repr

/-- Writes one column of a role. -/
def setRole (role : ColumnRole) (column : ColumnId) (board : Board) : Board :=
  match role with
  | .started => { board with startedCol := column }
  | .paused => { board with pausedCol := column }
  | .finished => { board with finishedCol := column }

def createBoard (outside : Outside) (owner : Uid) (req : CreateBoard) : Work Board := do
  Tx.lift ((validateName req.name).mapError .ofBoard)
  Tx.lift ((validateColumnNames req.columns).mapError .ofBoard)
  Tx.check (0 ≤ req.archiveAfterSecs) (.ofBoard .negativeArchiveDelay)
  Tx.check (0 ≤ req.purgeDeletedAfterSecs) (.ofBoard .negativePurgeDelay)
  Tx.check (req.startedCol < req.columns.length)
    (.badRequest (.columnIndex .started req.startedCol))
  Tx.check (req.pausedCol < req.columns.length) (.badRequest (.columnIndex .paused req.pausedCol))
  Tx.check (req.finishedCol < req.columns.length)
    (.badRequest (.columnIndex .finished req.finishedCol))
  let drawn ← Tx.read fun s ↦
    freshShortId outside .boards s.nextBoard (s.boards.map Board.shortId)
  let shortId ← Tx.require drawn .internal
  let (id, column) ← Tx.read fun s ↦ (s.nextBoard, s.nextColumn)
  let members := if owner ∈ req.members then req.members else owner :: req.members
  let board : Board :=
    { id
      shortId
      name := trim req.name
      description := trim req.description
      ownerUid := owner
      isLocked := req.isLocked
      isPrivate := req.isPrivate
      archiveAfterSecs := req.archiveAfterSecs
      purgeDeletedAfterSecs := req.purgeDeletedAfterSecs
      cardFields := req.cardFields
      startedCol := column + req.startedCol
      pausedCol := column + req.pausedCol
      finishedCol := column + req.finishedCol
      columns := req.columns.zipIdx.map fun (name, index) ↦
        ⟨column + index, trim name, index * 10, false⟩
      members := members.dedup }
  Tx.write fun s ↦
    { s with
      boards := s.boards ++ [board]
      nextBoard := id + 1
      nextColumn := column + req.columns.length }
  recordEvent id none (some owner) .boardCreated outside.now
  requireBoard id

/-- Partial update, nothing leaves a field alone. -/
structure UpdateBoard where
  boardId : BoardId
  name : Option Text
  description : Option Text
  isLocked : Option Bool
  isPrivate : Option Bool
  archiveAfterSecs : Option ℤ
  purgeDeletedAfterSecs : Option ℤ
  cardFields : Option CardFields
  roles : List (ColumnRole × ColumnId)
  deriving DecidableEq, Repr

/-- The fields an update sets. -/
def UpdateBoard.fields (req : UpdateBoard) (board : Board) : Board :=
  { board with
    name := (req.name.map trim).getD board.name
    description := (req.description.map trim).getD board.description
    isLocked := req.isLocked.getD board.isLocked
    isPrivate := req.isPrivate.getD board.isPrivate
    archiveAfterSecs := req.archiveAfterSecs.getD board.archiveAfterSecs
    purgeDeletedAfterSecs := req.purgeDeletedAfterSecs.getD board.purgeDeletedAfterSecs
    cardFields := req.cardFields.getD board.cardFields }

/-- The roles an update or a removal hands over, in order. -/
def setRoles (roles : List (ColumnRole × ColumnId)) (board : Board) : Board :=
  roles.foldl (fun board (role, column) ↦ setRole role column board) board

/-- `board` is the board as it was loaded. -/
def updateBoard (board : Board) (req : UpdateBoard) : Work Board := do
  match req.name with
  | some name => Tx.lift ((validateName name).mapError .ofBoard)
  | none => pure ()
  Tx.check (∀ v ∈ req.archiveAfterSecs, 0 ≤ v) (.ofBoard .negativeArchiveDelay)
  Tx.check (∀ v ∈ req.purgeDeletedAfterSecs, 0 ≤ v) (.ofBoard .negativePurgeDelay)
  Tx.lift (checkAll (fun role ↦
    ensure (board.hasColumn role.2) (.ofBoard (.columnNotOnBoard role.2))) req.roles)
  Tx.write fun s ↦ s.modifyBoard board.id fun b ↦ setRoles req.roles (req.fields b)
  requireBoard board.id

/-- A board another board's task is in a column of cannot go. -/
def deleteBoard (id : BoardId) : Work Unit := do
  demand (fun s ↦ s.tasks.all fun row ↦ row.boardId == id ||
    !(s.board id).any fun board ↦ board.hasColumn row.columnId) .internal
  Tx.write fun s ↦ s.dropBoard id

def addColumn (board : Board) (name : Text) : Work ColumnId := do
  Tx.lift ((validateColumnNames (board.columns.map Column.name ++ [name])).mapError .ofBoard)
  let position := (((board.columns.map Column.position).max?).getD (-10)) + 10
  demand (fun s ↦ (s.board board.id).isSome) .internal
  let id ← Tx.read fun s ↦ s.nextColumn
  Tx.write fun s ↦
    { s.modifyBoard board.id (fun b ↦
        { b with columns := sortColumns (b.columns ++ [⟨id, trim name, position, false⟩]) }) with
      nextColumn := id + 1 }
  pure id

/-- Changes one column, wherever it is. -/
def modifyColumn (column : ColumnId) (f : Column → Column) (s : Store) : Store :=
  { s with boards := s.boards.map fun board ↦
      { board with columns := sortColumns (board.columns.map fun c ↦
          if c.id = column then f c else c) } }

def renameColumn (board : Board) (column : ColumnId) (name : Text) : Work Unit := do
  Tx.lift ((validateColumnNames (board.columns.map fun c ↦
    if c.id = column then name else c.name)).mapError .ofBoard)
  Tx.write (modifyColumn column fun c ↦ { c with name := trim name })

def reorderColumns (board : Board) (order : List ColumnId) : Work Unit := do
  Tx.check ((board.columns.map Column.id).insertionSort (· ≤ ·) = order.insertionSort (· ≤ ·))
    (.badRequest .columnOrder)
  Tx.write fun s ↦ order.zipIdx.foldl (fun s (column, index) ↦
    modifyColumn column (fun c ↦ { c with position := index * 10 }) s) s

def setColumnSort (column : ColumnId) (sortByDue : Bool) : Work Unit :=
  Tx.write (modifyColumn column fun c ↦ { c with sortByDue })

/-- How many rows of a column come before a row, as the subquery of the bulk update counts them. -/
def crowd (s : Store) (sweep : Sweep) (column : ColumnId) (row : TaskRow) : ℕ :=
  s.tasks.countP fun other ↦ other.columnId == column && decide (other.position < row.position) &&
    !(sweep.seesMoved && decide (sweep.rank other.id < sweep.rank row.id))

/-- The tasks of a removed column, behind what is in the destination already. -/
def Store.moveTasks (s : Store) (sweep : Sweep) (removed destination : ColumnId) (base : ℤ) : Store :=
  { s with tasks := s.tasks.map fun row ↦
      if row.columnId = removed then
        { row with
          columnId := destination
          position := base + crowd s sweep removed row * 10
          version := row.version + 1 }
      else row }

/-- A column that is there. -/
def Store.hasColumn (s : Store) (column : ColumnId) : Bool := (s.columnBoard column).isSome

/-- The position a task appended to a column gets. -/
def nextPosition (column : ColumnId) : Work ℤ := do
  let position ← Tx.read fun s ↦ s.nextPosition column
  Tx.check (position < 2 ^ 63) .internal
  pure position

/-- Where the tasks of a removed column go, when they go anywhere. -/
def moveColumnTasks (sweep : Sweep) (removed : ColumnId) : Option ColumnId → Work Unit
  | some destination => do
    let base ← nextPosition destination
    demand (fun s ↦ s.hasColumn destination || s.tasks.all fun row ↦ row.columnId != removed)
      .internal
    Tx.write fun s ↦ s.moveTasks sweep removed destination base
  | none => pure ()

/-- A column that still has tasks cannot go. -/
def removeColumn (outside : Outside) (board : Board) (plan : ColumnRemoval) : Work Unit := do
  moveColumnTasks outside.sweep plan.removed plan.moveTasksTo
  Tx.write fun s ↦ s.modifyBoard board.id (setRoles plan.reassignRoles)
  demand (fun s ↦ !s.hasColumn plan.removed || s.tasks.all fun row ↦ row.columnId != plan.removed)
    .internal
  Tx.write fun s ↦
    { s with boards := s.boards.map fun b ↦
        { b with columns := b.columns.filter fun c ↦ c.id != plan.removed } }

/-! ### Tasks -/

def requireTask (id : TaskId) : Work Task := do
  let task ← Tx.read fun s ↦ s.task id
  Tx.require task (.notFound .task)

/-- Writes the repetition of a task, or takes it away. -/
def Store.setRepeat (s : Store) (task : TaskId) (row : Option RepeatRow) : Store :=
  { s with repeats := (s.repeats.filter fun r ↦ r.taskId != task) ++ row.toList }

/-- Writes who a task is assigned to. -/
def Store.setAssignees (s : Store) (task : TaskId) (uids : List Uid) : Store :=
  { s with assignees :=
      (s.assignees.filter fun pair ↦ pair.1 != task) ++ uids.dedup.map fun uid ↦ (task, uid) }

/-- Writes what a task depends on. -/
def Store.setDeps (s : Store) (task : TaskId) (deps : List TaskId) : Store :=
  { s with deps := edgesOfOthers s.deps task ++ deps.dedup.map fun dep ↦ (task, dep) }

def setRepeat (outside : Outside) (task : TaskId) : Option RepeatSpec → Work Unit
  | some spec => do
    Tx.lift (spec.validate.mapError fun error ↦ .badRequest (.repeats error))
    Tx.write fun s ↦ s.setRepeat task (some
      ⟨task, spec, spec.nextFireAfter (outside.zones spec.tz) outside.now, true⟩)
  | none => Tx.write fun s ↦ s.setRepeat task none

/-- The task something is written about has to be there, and so have the tasks it depends on. -/
def writeRelations (outside : Outside) (task : TaskId) (draft : TaskDraft) : Work Unit := do
  demand (fun s ↦ (s.taskRow task).isSome ||
    draft.assignees.isEmpty && draft.dependsOn.isEmpty && draft.repeats.isNone) .internal
  Tx.write fun s ↦ s.setAssignees task draft.assignees
  demand (fun s ↦ draft.dependsOn.all fun dep ↦ (s.taskRow dep).isSome) .internal
  Tx.write fun s ↦ s.setDeps task draft.dependsOn
  setRepeat outside task draft.repeats

/-- The row of a new task. -/
def newTaskRow (id : TaskId) (shortId : ShortId) (position : ℤ) (board : Board) (column : ColumnId)
    (draft : TaskDraft) (creator : Uid) (fromTemplate : Option TemplateId) (now : Instant) :
    TaskRow where
  id := id
  shortId := shortId
  boardId := board.id
  columnId := column
  position := position
  title := trim draft.title
  description := draft.description
  startAt := draft.startAt
  dueAt := draft.dueAt
  reminderStartMinutes := draft.reminderStartMinutes
  reminderDueMinutes := draft.reminderDueMinutes
  createdBy := creator
  createdAt := now
  finishedAt := if column = board.finishedCol then some now else none
  version := 1
  archivedAt := none
  archivedFromCol := none
  deletedAt := none
  checklist := draft.checklist
  templateId := fromTemplate
  excludeFromStats := false
  printRules := draft.printRules
  autoStart := draft.autoStart

/-- Puts a new row into the tasks table. -/
def Store.insertTask (s : Store) (row : TaskRow) : Store :=
  { s with tasks := s.tasks ++ [row], nextTask := row.id + 1 }

def createTask (outside : Outside) (board : Board) (column : ColumnId) (draft : TaskDraft)
    (creator : Uid) (fromTemplate : Option TemplateId) : Work Task := do
  Tx.lift ((validateDraft draft board).mapError .ofTask)
  let id ← Tx.read fun s ↦ s.nextTask
  let drawn ← Tx.read fun s ↦ freshShortId outside .tasks id (s.tasks.map TaskRow.shortId)
  let shortId ← Tx.require drawn .internal
  let position ← nextPosition column
  demand (fun s ↦ s.hasColumn column && (s.board board.id).isSome) .internal
  Tx.write fun s ↦ s.insertTask
    (newTaskRow id shortId position board column draft creator fromTemplate outside.now)
  writeRelations outside id draft
  recordEvent board.id id creator (.taskCreated column) outside.now
  requireTask id

/-- What a save writes into the row. -/
def savedRow (draft : TaskDraft) (row : TaskRow) : TaskRow :=
  { row with
    title := trim draft.title
    description := draft.description
    startAt := draft.startAt
    dueAt := draft.dueAt
    checklist := draft.checklist
    reminderStartMinutes := draft.reminderStartMinutes
    reminderDueMinutes := draft.reminderDueMinutes
    printRules := draft.printRules
    autoStart := draft.autoStart
    version := row.version + 1 }

/-- The caller has already compared versions and checked permissions. -/
def updateTask (outside : Outside) (task : Task) (draft : TaskDraft) : Work Task := do
  Tx.write fun s ↦ s.modifyTask task.id (savedRow draft)
  writeRelations outside task.id draft
  requireTask task.id

/-- Ticks or unticks one item of a checklist. -/
def tick (items : List ChecklistItem) (index : ℕ) (done : Bool) : List ChecklistItem :=
  items.modify index fun item ↦ { item with done }

/-- The whole checklist is written, from the task as it was loaded. -/
def setChecklistItem (task : Task) (index : ℕ) (done : Bool) : Work Task := do
  Tx.check (index < task.checklist.length) (.badRequest .noChecklistItem)
  Tx.write fun s ↦ s.modifyTask task.id fun row ↦
    { row with checklist := tick task.checklist index done, version := row.version + 1 }
  requireTask task.id

/-- The position a moved task gets. -/
def movedPosition (task : Task) (plan : MovePlan) : Option ℤ → Work ℤ
  | some position => pure position
  | none => if plan.source = plan.destination then pure task.position else nextPosition plan.destination

def applyMove (outside : Outside) (task : Task) (plan : MovePlan) (position : Option ℤ) :
    Work Task := do
  let position ← movedPosition task plan position
  demand (fun s ↦ s.hasColumn plan.destination) .internal
  Tx.write fun s ↦ s.modifyTask task.id fun row ↦
    { row with
      columnId := plan.destination
      position
      finishedAt := plan.finishedAt
      version := row.version + 1 }
  if plan.source ≠ plan.destination then
    recordEvent task.boardId task.id none (.taskMoved plan.source plan.destination) outside.now
  else pure ()
  requireTask task.id

/-- Into the archive, marked as deleted. The repetition, if any, pauses. -/
def softDeleteTask (outside : Outside) (task : Task) : Work Task := do
  Tx.write fun s ↦ s.modifyTask task.id fun row ↦
    { row with
      archivedAt := outside.now
      deletedAt := outside.now
      archivedFromCol := row.columnId
      version := row.version + 1 }
  Tx.write fun s ↦ s.modifyRepeat task.id fun row ↦ { row with active := false }
  requireTask task.id

/-- Removes the row for good. -/
def purgeTask (id : TaskId) : Work Unit := Tx.write fun s ↦ s.dropTasks fun row ↦ row.id == id

def archiveTask (now : Instant) (task : Task) : Work Task := do
  Tx.write fun s ↦ s.modifyTask task.id fun row ↦
    { row with archivedAt := now, archivedFromCol := row.columnId, version := row.version + 1 }
  requireTask task.id

/-- A repetition paused by a delete picks up again from now. -/
def restoreTask (outside : Outside) (task : Task) (destination : ColumnId) : Work Task := do
  let position ← nextPosition destination
  demand (fun s ↦ s.hasColumn destination) .internal
  Tx.write fun s ↦ s.modifyTask task.id fun row ↦
    { row with
      archivedAt := none
      archivedFromCol := none
      deletedAt := none
      columnId := destination
      position
      finishedAt := none
      version := row.version + 1 }
  Tx.write fun s ↦ s.modifyRepeat task.id fun row ↦
    { row with
      active := true
      nextFireAt := row.rule.nextFireAfter (outside.zones row.rule.tz) outside.now }
  requireTask task.id

def unassignOnBoard (board : BoardId) (uid : Uid) : Work (List TaskId) := do
  let tasks ← Tx.read fun s ↦ s.tasksAssignedOnBoard board uid
  Tx.write fun s ↦
    { s with
      assignees := s.assignees.filter fun pair ↦ !(tasks.contains pair.1 && pair.2 == uid)
      tasks := s.tasks.map fun row ↦
        if row.id ∈ tasks then { row with version := row.version + 1 } else row }
  pure tasks

def setExcludeFromStats (task : TaskId) (excluded : Bool) : Work Task := do
  Tx.write fun s ↦ s.modifyTask task fun row ↦
    { row with excludeFromStats := excluded, version := row.version + 1 }
  requireTask task

/-! ### Repetitions -/

def advanceRepeat (task : TaskId) : Option Instant → Work Unit
  | some next => Tx.write fun s ↦ s.modifyRepeat task fun row ↦ { row with nextFireAt := next }
  | none => Tx.write fun s ↦ s.modifyRepeat task fun row ↦
      { row with active := false, nextFireAt := none }

/-- Turns a repetition off for good. -/
def stopRepeat (task : Task) : Work Task := do
  Tx.write fun s ↦ (s.setRepeat task.id none).modifyTask task.id fun row ↦
    { row with version := row.version + 1 }
  requireTask task.id

/-! ### What the scheduler looks for -/

namespace Store

variable (s : Store)

/-- The rows that satisfy a condition together with their board. -/
def tasksWhere (p : Board → TaskRow → Bool) : List Task :=
  (s.tasks.filter fun row ↦ (s.board row.boardId).any fun board ↦ p board row).map s.hydrate

/-- Deleted tasks whose retention period has run out. -/
def tasksDueForPurge (now : Instant) : List Task :=
  s.tasksWhere fun board row ↦
    row.deletedAt.any fun deleted ↦ decide (deleted + board.purgeDeletedAfterSecs ≤ now)

def tasksDueForArchive (now : Instant) : List Task :=
  s.tasksWhere fun board row ↦ !row.isArchived && row.columnId == board.finishedCol &&
    row.finishedAt.any fun finished ↦ decide (finished + board.archiveAfterSecs ≤ now)

/-- Tasks with the auto start flag whose start date has come, that nobody has started. -/
def autoStartDue (now : Instant) : List Task :=
  s.tasksWhere fun board row ↦ row.autoStart && row.startAt.any (fun start ↦ decide (start ≤ now)) &&
    !row.isArchived && row.columnId != board.startedCol && row.columnId != board.finishedCol &&
    !s.wasEverIn row.id board.startedCol

def dueRepeats (now : Instant) : List (Task × RepeatSpec) :=
  s.repeats.filterMap fun r ↦
    if r.active && r.nextFireAt.any (fun next ↦ decide (next ≤ now)) then
      (s.task r.taskId).map fun task ↦ (task, r.rule)
    else none

end Store

/-! ### Templates and programs -/

def requireTemplate (id : TemplateId) : Work Template := do
  let template ← Tx.read fun s ↦ s.template id
  Tx.require template (.notFound .template)

def createTemplate (outside : Outside) (board : BoardId) (owner : Uid) (name : Text)
    (draft : TaskDraft) (options : TemplateOptions) : Work Template := do
  let id ← Tx.read fun s ↦ s.nextTemplate
  let drawn ← Tx.read fun s ↦
    freshShortId outside .templates id (s.templates.map Template.shortId)
  let shortId ← Tx.require drawn .internal
  demand (fun s ↦ (s.board board).isSome) .internal
  Tx.write fun s ↦
    { s with
      templates := s.templates ++ [⟨id, shortId, board, owner, name, draft, options⟩]
      nextTemplate := id + 1 }
  requireTemplate id

def updateTemplate (id : TemplateId) (name : Text) (draft : TaskDraft) (options : TemplateOptions) :
    Work Template := do
  Tx.write fun s ↦
    { s with templates := s.templates.map fun template ↦
        if template.id = id then { template with name, draft, options } else template }
  requireTemplate id

def deleteTemplate (id : TemplateId) : Work Unit :=
  Tx.write fun s ↦ { s with templates := s.templates.filter fun template ↦ template.id != id }

def requireProgram (id : ProgramId) : Work Program := do
  let program ← Tx.read fun s ↦ s.program id
  Tx.require program (.notFound .program)

def createProgram (outside : Outside) (board : BoardId) (owner : Uid) (draft : ProgramDraft) :
    Work Program := do
  let id ← Tx.read fun s ↦ s.nextProgram
  let drawn ← Tx.read fun s ↦ freshShortId outside .programs id (s.programs.map Program.shortId)
  let shortId ← Tx.require drawn .internal
  demand (fun s ↦ (s.board board).isSome) .internal
  Tx.write fun s ↦
    { s with
      programs := s.programs ++ [⟨id, shortId, board, owner, trim draft.name,
        trim draft.description, draft.steps, draft.minSamples⟩]
      nextProgram := id + 1 }
  requireProgram id

def updateProgram (id : ProgramId) (draft : ProgramDraft) : Work Program := do
  Tx.write fun s ↦
    { s with programs := s.programs.map fun program ↦
        if program.id = id then
          { program with
            name := trim draft.name
            description := trim draft.description
            steps := draft.steps
            minSamples := draft.minSamples }
        else program }
  requireProgram id

/-- Runs already going keep their own copy of the steps. -/
def deleteProgram (id : ProgramId) : Work Unit :=
  Tx.write fun s ↦
    { s with
      programs := s.programs.filter fun program ↦ program.id != id
      runs := s.runs.map fun run ↦
        { run with programId := run.programId.filter fun program ↦ program != id } }

end Taskologic.Daemon
