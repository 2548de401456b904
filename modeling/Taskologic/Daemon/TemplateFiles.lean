import Taskologic.Daemon.Export
import Taskologic.Library.Json

/-!
# Importing templates

A file holds a template with what it depends on, dependencies first and by name. They are read onto a board
(`importTemplateFile`), one entry after another. An entry whose short id is here already is the same template,
wherever it sits: it is refused, gets a new id, or takes the other's place, as the operator says. Any other entry
that has the name of a template of the board is left as it is.

Scope. A file is what its text parses to.
-/

set_option autoImplicit false
set_option relaxedAutoImplicit false

namespace Taskologic.Daemon

open Taskologic.Core Taskologic.Library

/-- One template, its dependencies named rather than numbered. -/
structure TemplateEntry where
  name : Text
  shortId : Option ShortId
  draft : TaskDraft
  startPrefill : Option Offset
  duePrefill : Option Offset
  dueFromAverage : Option FromAverage
  dependsOn : List Text
  deriving DecidableEq

structure TemplateFile where
  format : ℕ
  kind : Text
  /-- The one that was asked for; the rest are what it depends on. -/
  root : Text
  templates : List TemplateEntry

inductive TemplateFileError where
  | board (error : TransferError)
  | app (error : AppError)
  /-- Written by a later version. -/
  | format (format : ℕ)
  /-- The file holds something else. -/
  | kind (kind : Text)
  /-- A template with the id is here already. -/
  | templateHere (id : ShortId) (name board : Text)
  /-- The entry would close a dependency cycle. -/
  | wouldClose (name : Text) (dep : TemplateId)
  deriving DecidableEq

/-- What an import tells the operator. -/
inductive TemplateNote where
  | idTaken (id : ShortId) (name board : Text)
  | leftAsItIs (name : Text) (id : TemplateId)
  | droppedAssignees (name : Text) (count : ℕ)
  | droppedRecipients (name : Text) (count : ℕ)
  /-- Neither in the file nor on the board. -/
  | unknownDependency (name dep : Text)
  | replaced (name : Text) (id : ShortId)
  | imported (name : Text) (id : ShortId)
  | rootMissing (root : Text)
  deriving DecidableEq

/-- A transaction of an import. -/
abbrev TemplateWork (α : Type) : Type := Tx Store TemplateFileError α

/-- Names as they are matched, with the template each stands for, the latest first. -/
abbrev TemplateNames := List (Text × TemplateId)

/-- How names of templates are matched. -/
def matchKey (name : Text) : Text := toLowercase (trim name)

/-! ### People the board lacks -/

/-- Which of these uids are people this board has. -/
def Store.known (s : Store) (board : Board) (uids : List Uid) : List Uid :=
  uids.filter fun uid ↦ board.isMember uid && (s.user uid).isSome

/-- Keeps of the people a print rule names those the board has, and falls back to the assignees when nobody is
left. -/
def Store.stripRule (s : Store) (board : Board) (rule : PrintRule) : PrintRule :=
  match rule.recipients with
  | .users uids =>
    let kept := s.known board uids
    { rule with recipients := if kept = [] then .assignees else .users kept }
  | .assignees | .creator => rule

/-- How many people a print rule names whom the board lacks. -/
def Store.strangers (s : Store) (board : Board) (rule : PrintRule) : ℕ :=
  match rule.recipients with
  | .users uids => uids.length - (s.known board uids).length
  | .assignees | .creator => 0

/-- The draft an entry brings along: without dates, task dependencies and the people the board lacks. -/
def Store.draftOn (s : Store) (board : Board) (entry : TemplateEntry) : TaskDraft :=
  { entry.draft with
    startAt := none
    dueAt := none
    dependsOn := []
    assignees := s.known board entry.draft.assignees
    printRules := entry.draft.printRules.map (s.stripRule board) }

/-- What is said about the people left out. -/
def Store.peopleNotes (s : Store) (board : Board) (entry : TemplateEntry) : List TemplateNote :=
  let dropped := entry.draft.assignees.length - (s.known board entry.draft.assignees).length
  (if dropped = 0 then [] else [.droppedAssignees entry.name dropped]) ++
    ((entry.draft.printRules.map (s.strangers board)).filter (· ≠ 0)).map (.droppedRecipients entry.name)

/-! ### Names and ids -/

/-- The templates of a board by name. Of two with one name the later counts. -/
def Store.templateNames (s : Store) (board : BoardId) : TemplateNames :=
  (((s.listTemplates board).insertionSort fun a b ↦
    nameKey a.name < nameKey b.name ∨ nameKey a.name = nameKey b.name ∧ a.id ≤ b.id).map fun template ↦
      (matchKey template.name, template.id)).reverse

def Store.templateByShortId (s : Store) (id : ShortId) : Option Template :=
  s.templates.find? fun template ↦ template.shortId == id

namespace TemplateEntry

variable (entry : TemplateEntry)

/-- The template here that has the entry's short id. -/
def existing (s : Store) : Option Template := entry.shortId.bind s.templateByShortId

/-- The templates the entry depends on, as far as their names are known. -/
def depTemplates (names : TemplateNames) : List TemplateId :=
  entry.dependsOn.filterMap fun dep ↦ valueAt? names (matchKey dep)

def unknownDeps (names : TemplateNames) : List TemplateNote :=
  (entry.dependsOn.filter fun dep ↦ (valueAt? names (matchKey dep)).isNone).map (.unknownDependency entry.name)

def options (names : TemplateNames) : TemplateOptions where
  startPrefill := entry.startPrefill
  duePrefill := entry.duePrefill
  dueFromAverage := entry.dueFromAverage
  depTemplates := entry.depTemplates names

end TemplateEntry

/-! ### One entry after another -/

/-- Takes over the short id of a file, if there is one to keep. -/
def keepTemplateShortId (id : TemplateId) : Option ShortId → Work Unit
  | some shortId => Tx.write fun s ↦
    { s with templates := s.templates.map fun template ↦
        if template.id = id then { template with shortId } else template }
  | none => pure ()

/-- The entry in the place of the template that has its short id. -/
def replaceTemplate (outside : Outside) (owner : Uid) (old : TemplateId) (entry : TemplateEntry)
    (draft : TaskDraft) (options : TemplateOptions) : Work Template := do
  let template ← updateTemplate old (trim entry.name) draft options
  recordEvent template.boardId none owner (.templateChanged template.id) outside.now
  pure template

/-- The entry as a new template of the board. -/
def addTemplate (outside : Outside) (owner : Uid) (board : BoardId) (keptId : Option ShortId)
    (entry : TemplateEntry) (draft : TaskDraft) (options : TemplateOptions) : Work Template := do
  let template ← createTemplate outside board owner (trim entry.name) draft options
  keepTemplateShortId template.id keptId
  recordEvent board none owner (.templateCreated template.id) outside.now
  pure { template with shortId := keptId.getD template.shortId }

/-- The template whose place an entry takes. -/
def Clash.replacing (clash : Clash) (existing : Option Template) : Option Template :=
  if clash = .replace then existing else none

/-- What becomes of an entry that is not left out. -/
def writeEntry (outside : Outside) (owner : Uid) (board : Board) (clash : Clash) (names : TemplateNames)
    (existing : Option Template) (entry : TemplateEntry) :
    TemplateWork (TemplateNames × List TemplateNote) := do
  let (draft, notes) ← Tx.read fun s ↦
    (s.draftOn board entry, s.peopleNotes board entry ++ entry.unknownDeps names)
  Tx.lift ((validateDraft draft board).mapError fun error ↦ .app (.ofTask error))
  let graph ← Tx.read fun s ↦ templateEdges (s.listTemplates board.id)
  match firstCycle graph 0 (entry.depTemplates names) with
  | some dep => Tx.fail (.wouldClose entry.name dep)
  | none =>
    match clash.replacing existing with
    | some old => do
      let template ← (replaceTemplate outside owner old.id entry draft (entry.options names)).mapError .app
      pure ((matchKey entry.name, template.id) :: names, notes ++ [.replaced template.name template.shortId])
    | none => do
      let keptId := if existing.isSome then none else entry.shortId
      let template ← (addTemplate outside owner board.id keptId entry draft (entry.options names)).mapError .app
      pure ((matchKey entry.name, template.id) :: names, notes ++ [.imported template.name template.shortId])

def importEntry (outside : Outside) (owner : Uid) (board : Board) (clash : Clash) (names : TemplateNames)
    (entry : TemplateEntry) : TemplateWork (TemplateNames × List TemplateNote) := do
  let existing ← Tx.read entry.existing
  match existing with
  | some old => do
    let holder ← (requireBoard old.boardId).mapError .app
    match clash with
    | .refuse => Tx.fail (.templateHere old.shortId old.name holder.name)
    | .newId => do
      let (names, notes) ← writeEntry outside owner board clash names existing entry
      pure (names, .idTaken old.shortId old.name holder.name :: notes)
    | .replace => writeEntry outside owner board clash names existing entry
  | none =>
    match valueAt? names (matchKey entry.name) with
    | some id => pure (names, [.leftAsItIs entry.name id])
    | none => writeEntry outside owner board clash names none entry

def importEntries (outside : Outside) (owner : Uid) (board : Board) (clash : Clash) :
    TemplateNames → List TemplateEntry → TemplateWork (TemplateNames × List TemplateNote)
  | names, [] => pure (names, [])
  | names, entry :: rest => do
    let (names, notes) ← importEntry outside owner board clash names entry
    let (names, later) ← importEntries outside owner board clash names rest
    pure (names, notes ++ later)

/-- Files this build reads. -/
def TemplateFile.check (file : TemplateFile) : Except TemplateFileError Unit := do
  if 1 < file.format then .error (.format file.format)
  if file.kind ≠ text "template" then .error (.kind file.kind)

/-- Reads a template file onto the board of a name, in one transaction. -/
def importTemplateFile (outside : Outside) (owner : Uid) (boardName : Text) (file : TemplateFile) (clash : Clash) :
    TemplateWork (List TemplateNote) := do
  let found ← Tx.read fun s ↦ s.boardNamed boardName
  let board ← Tx.lift (found.mapError .board)
  Tx.lift file.check
  let names ← Tx.read fun s ↦ s.templateNames board.id
  let (names, notes) ← importEntries outside owner board clash names file.templates
  pure (notes ++ if (valueAt? names (matchKey file.root)).isSome then [] else [.rootMissing file.root])

end Taskologic.Daemon
