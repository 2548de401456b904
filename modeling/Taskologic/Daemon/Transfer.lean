import Taskologic.Daemon.Handlers

/-!
# Importing boards

A file holds boards with everything that hangs off them, ids as they were on the server it comes from.
An import hands out fresh ids and rewrites every reference (`Maps`). First come the rows of each board
(`importBoardRows`), then what refers to tasks (`importLinks`); a reference to something the file does not
hold is dropped, never guessed. Nothing in a file is validated beyond that.

Scope. Reading and writing the text of a file, importing a single program or template, and what was printed
by a user's own settings are left out. A run keeps its name in its row. An imported run that had started
brings the reaction that started it along in the history.
-/

set_option autoImplicit false
set_option relaxedAutoImplicit false

namespace Taskologic.Daemon

open Taskologic.Core Taskologic.Library

/-- What to do about a short id that is taken. -/
inductive Clash where
  | refuse
  | newId
  | replace
  deriving DecidableEq, Repr

/-- A run and what it remembers about its tasks. -/
structure RunBundle where
  run : Run
  tasks : List TaskLink

/-- A board and everything that hangs off it. -/
structure BoardBundle where
  board : Board
  templates : List Template
  programs : List Program
  tasks : List Task
  /-- The repetition rows themselves, stopped ones included. -/
  repeats : List RepeatRow
  runs : List RunBundle
  slips : List SlipRow
  events : List EventRow

/-- One or more boards, or a whole server. -/
structure ImportFile where
  /-- The people with an account. -/
  users : List User
  boards : List BoardBundle

/-- Where the ids of a file have gone, the latest entry first. -/
structure Maps where
  boards : List (BoardId × BoardId)
  columns : List (ColumnId × ColumnId)
  templates : List (TemplateId × TemplateId)
  programs : List (ProgramId × ProgramId)
  tasks : List (TaskId × TaskId)
  runs : List (RunId × RunId)

/-- `Maps::default`. -/
def Maps.default : Maps := ⟨[], [], [], [], [], []⟩

/-! ### People -/

/-- Accounts are made for those who have none. Unless a whole server is imported nobody becomes an
administrator that way, and none are made before the first login. -/
def importPeople (people : List User) (wholeServer : Bool) : Work Unit :=
  Tx.write fun s ↦
    if !wholeServer && s.users.isEmpty then s
    else people.foldl (fun s person ↦
      if (s.user person.uid).isSome then s
      else { s with users := s.users ++ [{ person with isAdmin := wholeServer && person.isAdmin }] }) s

/-! ### The rows of a board -/

/-- The short id a row keeps on import: the file's, unless it is taken. -/
def keptShortId (outside : Outside) (table : ShortIdTable) (key : ℕ) (taken : List ShortId)
    (id : ShortId) (clash : Clash) : Work ShortId :=
  if id ∉ taken then pure id
  else if clash = .refuse then Tx.fail (.badRequest (.shortIdTaken id))
  else Tx.require (freshShortId outside table key taken) .internal

/-- ASCII letters without their case, as the database compares names. -/
def sameName (a b : Text) : Bool := a.map Char.toLower == b.map Char.toLower

/-- The new id of a column a role is in. -/
def importRole (columns : List (ColumnId × ColumnId)) (role : ColumnRole) (column : ColumnId) :
    Work ColumnId :=
  Tx.require (columns.lookup column) (.badRequest (.damagedRole role))

/-- The board with its columns and members. -/
def importBoard (outside : Outside) (board : Board) (clash : Clash) (maps : Maps) : Work Maps := do
  demand (fun s ↦ !s.boards.any fun b ↦ sameName b.name (trim board.name))
    (.badRequest (.boardHere board.name))
  let (id, column) ← Tx.read fun s ↦ (s.nextBoard, s.nextColumn)
  let taken ← Tx.read fun s ↦ s.boards.map Board.shortId
  let shortId ← keptShortId outside .boards id taken board.shortId clash
  let placed := board.columns.zipIdx.map fun (c, index) ↦ { c with id := column + index }
  let columns :=
    (board.columns.zipIdx.map fun (c, index) ↦ (c.id, column + index)).reverse ++ maps.columns
  let startedCol ← importRole columns .started board.startedCol
  let pausedCol ← importRole columns .paused board.pausedCol
  let finishedCol ← importRole columns .finished board.finishedCol
  let members := if board.ownerUid ∈ board.members then board.members
    else board.ownerUid :: board.members
  Tx.write fun s ↦
    { s with
      boards := s.boards ++ [{ board with
        id, shortId, startedCol, pausedCol, finishedCol
        columns := sortColumns placed
        members := members.dedup }]
      nextBoard := id + 1
      nextColumn := column + board.columns.length }
  pure { maps with boards := (board.id, id) :: maps.boards, columns }

/-- A template without its dependencies. -/
def importTemplate (outside : Outside) (board : BoardId) (clash : Clash) (template : Template) :
    Work (TemplateId × TemplateId) := do
  let id ← Tx.read fun s ↦ s.nextTemplate
  let taken ← Tx.read fun s ↦ s.templates.map Template.shortId
  let shortId ← keptShortId outside .templates id taken template.shortId clash
  Tx.write fun s ↦
    { s with
      templates := s.templates ++ [{ template with
        id, shortId, boardId := board
        options := { template.options with depTemplates := [] } }]
      nextTemplate := id + 1 }
  pure (template.id, id)

/-- The dependencies of the templates among each other, once each has an id. -/
def linkTemplates (maps : Maps) (templates : List Template) : Work Unit :=
  Tx.write fun s ↦ templates.foldl (fun s template ↦
    match maps.templates.lookup template.id with
    | some id =>
      if template.options.depTemplates = [] then s
      else
        { s with templates := s.templates.map fun t ↦
            if t.id = id then
              { t with options := { template.options with
                  depTemplates := template.options.depTemplates.filterMap fun dep ↦
                    maps.templates.lookup dep } }
            else t }
    | none => s) s

def importProgram (outside : Outside) (board : BoardId) (clash : Clash) (program : Program) :
    Work (ProgramId × ProgramId) := do
  let id ← Tx.read fun s ↦ s.nextProgram
  let taken ← Tx.read fun s ↦ s.programs.map Program.shortId
  let shortId ← keptShortId outside .programs id taken program.shortId clash
  Tx.write fun s ↦
    { s with
      programs := s.programs ++ [{ program with id, shortId, boardId := board }]
      nextProgram := id + 1 }
  pure (program.id, id)

/-- A task with its assignees. A short id is kept when it can be; a clash gets a fresh one. -/
def importTask (outside : Outside) (board : BoardId) (maps : Maps) (task : Task) :
    Work (TaskId × TaskId) := do
  let columnId ← Tx.require (maps.columns.lookup task.columnId)
    (.badRequest (.damagedTask task.shortId))
  let id ← Tx.read fun s ↦ s.nextTask
  let taken ← Tx.read fun s ↦ s.tasks.map TaskRow.shortId
  let shortId ← if task.shortId ∉ taken then pure task.shortId
    else Tx.require (freshShortId outside .tasks id taken) .internal
  Tx.write fun s ↦
    (s.insertTask { task.toTaskRow with
      id, shortId, boardId := board, columnId
      archivedFromCol := task.archivedFromCol.bind fun column ↦ maps.columns.lookup column
      templateId := task.templateId.bind fun template ↦ maps.templates.lookup template }).setAssignees
        id task.assignees
  pure (task.id, id)

/-- The board itself and the rows that hang off it alone. -/
def importBoardRows (outside : Outside) (clash : Clash) (maps : Maps) (bundle : BoardBundle) :
    Work Maps := do
  let board ← Tx.read fun s ↦ s.nextBoard
  let maps ← importBoard outside bundle.board clash maps
  let templates ← Tx.each (importTemplate outside board clash) bundle.templates
  let maps := { maps with templates := templates.reverse ++ maps.templates }
  linkTemplates maps bundle.templates
  let programs ← Tx.each (importProgram outside board clash) bundle.programs
  let maps := { maps with programs := programs.reverse ++ maps.programs }
  let tasks ← Tx.each (importTask outside board maps) bundle.tasks
  pure { maps with tasks := tasks.reverse ++ maps.tasks }

/-! ### What refers to tasks -/

/-- The dependencies of a task on tasks of the file. -/
def importDeps (maps : Maps) (task : Task) : Work Unit :=
  Tx.write fun s ↦
    match maps.tasks.lookup task.id with
    | some id => task.dependsOn.foldl (fun s dep ↦
        match maps.tasks.lookup dep with
        | some dep => { s with deps := insertNew s.deps (id, dep) }
        | none => s) s
    | none => s

def importRepeat (maps : Maps) (row : RepeatRow) : Work Unit :=
  Tx.write fun s ↦
    match maps.tasks.lookup row.taskId with
    | some id => s.setRepeat id (some { row with taskId := id })
    | none => s

/-- A link of a run. A task that is linked already keeps its link. -/
def importLink (maps : Maps) (run : RunId) (link : TaskLink) : Work Unit :=
  Tx.write fun s ↦
    match maps.tasks.lookup link.taskId with
    | some id => if (s.taskLink id).isSome then s
      else { s with links := s.links ++ [{ link with taskId := id, run }] }
    | none => s

/-- A run whose root task the file holds. The started column stands in for a column that was removed. -/
def importRun (maps : Maps) (board : BoardId) (startedCol : ColumnId) (bundle : RunBundle) :
    Work (List (RunId × RunId)) :=
  match maps.tasks.lookup bundle.run.rootTask with
  | none => pure []
  | some rootTask => do
    let id ← Tx.read fun s ↦ s.nextRun
    Tx.write fun s ↦
      { s with
        runs := s.runs ++ [{ bundle.run with
          id, rootTask, boardId := board
          programId := bundle.run.programId.bind fun program ↦ maps.programs.lookup program
          columnId := (maps.columns.lookup bundle.run.columnId).getD startedCol }]
        nextRun := id + 1
        reactions := s.reactions ++
          if bundle.run.startedAt.isSome then [⟨id, .rootStarted⟩] else [] }
    let _ ← Tx.each (importLink maps id) bundle.tasks
    pure [(bundle.run.id, id)]

def importSlip (maps : Maps) (slip : SlipRow) : Work Unit :=
  Tx.write fun s ↦
    match maps.tasks.lookup slip.taskId with
    | some id => { s with slips := insertNew s.slips { slip with taskId := id } }
    | none => s

/-- What ties the tasks of one board to each other and to runs. -/
def importLinks (maps : Maps) (bundle : BoardBundle) : Work Maps := do
  let board ← Tx.require (maps.boards.lookup bundle.board.id) .internal
  let _ ← Tx.each (importDeps maps) bundle.tasks
  let _ ← Tx.each (importRepeat maps) bundle.repeats
  let stored ← requireBoard board
  let runs ← Tx.each (importRun maps board stored.startedCol) bundle.runs
  let _ ← Tx.each (importSlip maps) bundle.slips
  pure { maps with runs := runs.flatten.reverse ++ maps.runs }

/-! ### The history -/

/-- An id of the file, or the id as it was where the file does not hold it. -/
def remapped (ids : List (ℕ × ℕ)) (id : ℕ) : ℕ := (ids.lookup id).getD id

/-- The ids a history entry names, moved to their new values. -/
def remapEvent (maps : Maps) : EventKind → EventKind
  | .taskCreated column => .taskCreated (column.map (remapped maps.columns))
  | .taskMoved source destination =>
    .taskMoved (remapped maps.columns source) (remapped maps.columns destination)
  | .taskArchived source => .taskArchived (remapped maps.columns source)
  | .taskRestored destination => .taskRestored (remapped maps.columns destination)
  | .dependencyOverridden deps => .dependencyOverridden (deps.map (remapped maps.tasks))
  | .repeatSpawned task => .repeatSpawned (remapped maps.tasks task)
  | .columnAdded column => .columnAdded (remapped maps.columns column)
  | .columnRemoved column destination =>
    .columnRemoved (remapped maps.columns column) (destination.map (remapped maps.columns))
  | .columnRenamed column => .columnRenamed (remapped maps.columns column)
  | .memberRemoved uid unassigned =>
    .memberRemoved uid (unassigned.map (remapped maps.tasks))
  | .templateCreated template => .templateCreated (remapped maps.templates template)
  | .templateChanged template => .templateChanged (remapped maps.templates template)
  | .templateDeleted template => .templateDeleted (remapped maps.templates template)
  | .programCreated program => .programCreated (remapped maps.programs program)
  | .programChanged program => .programChanged (remapped maps.programs program)
  | .programDeleted program => .programDeleted (remapped maps.programs program)
  | .runStarted run => .runStarted (remapped maps.runs run)
  | .runCancelled run => .runCancelled (remapped maps.runs run)
  | other => other

def importEvents (maps : Maps) (bundle : BoardBundle) : Work Unit := do
  let board ← Tx.require (maps.boards.lookup bundle.board.id) .internal
  Tx.write fun s ↦
    { s with events := s.events ++ bundle.events.map fun event ↦
        { event with
          boardId := board
          taskId := event.taskId.bind fun task ↦ maps.tasks.lookup task
          kind := remapEvent maps event.kind } }

/-- One step after another, each with what the one before made of the maps. -/
def eachWith {α : Type} (f : Maps → α → Work Maps) : Maps → List α → Work Maps
  | maps, [] => pure maps
  | maps, a :: rest => do
    let maps ← f maps a
    eachWith f maps rest

/-- Imports a file, in one transaction. -/
def importEverything (outside : Outside) (file : ImportFile) (wholeServer : Bool) (clash : Clash) :
    Work Unit := do
  importPeople file.users wholeServer
  let maps ← eachWith (importBoardRows outside clash) .default file.boards
  let maps ← eachWith importLinks maps file.boards
  let _ ← Tx.each (importEvents maps) file.boards
  pure ()

end Taskologic.Daemon
