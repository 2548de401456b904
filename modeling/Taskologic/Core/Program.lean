import Taskologic.Core.Draft
import Taskologic.Core.Barcode
import Taskologic.Library.Table

/-!
# Programs

A program is a list of steps. Every step says what its task looks like, when it appears, when it
starts, how long it should take, whether the root waits for it and what it prints. No step creates
another: a step says what it is waiting for. The root is the step with the key `rootKey`.

`ProgramDraft.validate` is everything that can be checked with the board in hand. It reads step keys
trimmed and answers trimmed and lowercase (`Question.canonical`). What a program that passes satisfies
is stated by `validate_eq_ok`, one condition for the list of keys and one for each step.

Scope. The texts of the errors are left out; an error carries the values its text is made from. The
codes that stand for answers on a slip belong to printing and are left out too.
-/

set_option autoImplicit false
set_option relaxedAutoImplicit false

namespace Taskologic.Core

open Library

/-- The key of the step that stands for the whole program. -/
def rootKey : Text := text "root"

/-- What stands in for the entry of a fan-out step in its texts. -/
def param : Text := text "{param}"

/-- The two answers of a yes or no question. -/
def yes : Text := text "yes"

def no : Text := text "no"

/-- `MAX_NAME_CHARS`. -/
def maxNameChars : ℕ := 120

/-! ### Questions -/

inductive QuestionKind where
  /-- Two answers, printed as the Y and N codes. -/
  | yesNo
  /-- Two to eight answers of your own. -/
  | choice (answers : List Text)
  deriving DecidableEq, Repr

/-- A question a step asks as its task finishes. -/
structure Question where
  text : Text
  kind : QuestionKind
  /-- Used when the task is finished without an answer. -/
  default : Option Text
  deriving DecidableEq, Repr

/-- What is wrong with a question. The source carries the rendered sentence. -/
inductive QuestionError where
  | noText
  | answerCount
  | emptyAnswer
  | answerTwice (answer : Text)
  | defaultNotAnswer (default : Text)
  deriving DecidableEq, Repr

/-- How two answers are compared by the validator: without blanks around them and in lowercase. -/
def foldAnswer (answer : Text) : Text := toLowercase (trim answer)

namespace Question

/-- The answers, in the order their codes print. -/
def answers (question : Question) : List Text :=
  match question.kind with
  | .yesNo => [yes, no]
  | .choice answers => answers

/-- The answer as it is stored and matched, if the text names one. -/
def canonical (question : Question) (given : Text) : Option Text :=
  question.answers.find? fun answer ↦ foldAnswer answer == foldAnswer given

/-- What a scanned answer code means for this question, if anything. -/
def answerFor (question : Question) (action : ScanAction) : Option Text :=
  match question.kind, action with
  | .yesNo, .yes => some yes
  | .yesNo, .no => some no
  | .choice answers, .choice n => if n = 0 then none else answers[n - 1]?
  | _, _ => none

/-- Every answer is visible and none is there twice, neither among the rest nor among those seen,
which are kept trimmed and lowercase. -/
def checkAnswers (seen : List Text) : List Text → Except QuestionError Unit
  | [] => .ok ()
  | answer :: rest => do
    ensure (foldAnswer answer ≠ []) .emptyAnswer
    ensure (foldAnswer answer ∉ seen) (.answerTwice (foldAnswer answer))
    checkAnswers (seen ++ [foldAnswer answer]) rest

def validate (question : Question) : Except QuestionError Unit := do
  ensure (trim question.text ≠ []) .noText
  match question.kind with
  | .choice answers => do
    ensure (2 ≤ answers.length ∧ answers.length ≤ ScanAction.maxChoices) .answerCount
    checkAnswers [] answers
  | .yesNo => .ok ()
  match question.default with
  | some default => ensure (question.canonical default).isSome (.defaultNotAnswer default)
  | none => .ok ()

end Question

/-! ### Steps -/

/-- Who a step's task is assigned to. -/
inductive Assign where
  /-- Whoever started the program. -/
  | starter
  | users (uids : List Uid)
  | nobody
  deriving DecidableEq, Repr

/-- What makes a step's task appear. -/
inductive Trigger where
  /-- Together with the root, when the program starts. -/
  | withRoot
  /-- When the root task enters the started column. -/
  | rootStarted
  /-- When a task of that step enters the finished column. -/
  | finished (step : Text)
  /-- When a task of that step is answered so. -/
  | answered (step answer : Text)
  deriving DecidableEq, Repr

/-- What a step's task is dated when it is made. -/
inductive StartRule where
  /-- No start date, a human moves it. -/
  | manual
  /-- Dated the moment the root enters the started column. -/
  | whenRootStarts
  /-- So long after the event that made it. -/
  | afterTrigger (offset : Offset)
  /-- So many days after the event that made it, at this time of day in the starter's zone. -/
  | daysLaterAt (days : ℕ) (time : TimeOfDay)
  deriving DecidableEq, Repr

/-- One step of a program. -/
structure Step where
  /-- How other steps refer to this one. -/
  key : Text
  title : Text
  description : Text
  assign : Assign
  checklist : List ChecklistItem
  /-- Any one of these makes the step's task. Ignored on the root. -/
  created : List Trigger
  /-- A trigger does nothing while the run already has a task for this step. -/
  once : Bool
  /-- Extra steps this one waits for besides the one that created it. -/
  alsoAfter : List Text
  start : StartRule
  autoStart : Bool
  /-- Counted from the moment the task enters the started column, into its due date. -/
  timeLimit : Option Offset
  /-- Whether the root waits for this step before finishing itself. -/
  countsTowardRoot : Bool
  /-- Asked when the step's task finishes. -/
  question : Option Question
  /-- Copied onto every task this step makes. -/
  print : List PrintRule
  /-- One task per entry instead of one task. -/
  fanOut : Option (List Text)
  deriving DecidableEq, Repr

namespace Step

/-- `Step::default`. -/
def default : Step where
  key := []
  title := []
  description := []
  assign := .starter
  checklist := []
  created := []
  once := false
  alsoAfter := []
  start := .manual
  autoStart := false
  timeLimit := none
  countsTowardRoot := true
  question := none
  print := []
  fanOut := none

def isRoot (step : Step) : Bool := step.key == rootKey

/-- The entries this step makes a task for: its fan-out list, or one task with nothing to
substitute. -/
def params (step : Step) : List (Option Text) :=
  match step.fanOut with
  | some entries => if entries = [] then [none] else entries.map some
  | none => [none]

end Step

/-- The step a trigger waits for. -/
def Trigger.step? : Trigger → Option Text
  | finished step => some step
  | answered step _ => some step
  | withRoot | rootStarted => none

/-- The steps a step mentions: in its triggers, then in `alsoAfter`. -/
def Step.refers (step : Step) : List Text := step.created.filterMap Trigger.step? ++ step.alsoAfter

/-! ### Validation -/

/-- What a client sends to save a program. -/
structure ProgramDraft where
  name : Text
  description : Text
  steps : List Step
  minSamples : ℕ
  deriving DecidableEq, Repr

/-- A saved program. -/
structure Program where
  id : ProgramId
  /-- Six characters a barcode can name the program by. -/
  shortId : ShortId
  boardId : BoardId
  /-- Whoever saved it. -/
  ownerUid : Uid
  name : Text
  description : Text
  steps : List Step
  minSamples : ℕ
  deriving DecidableEq, Repr

def Program.draft (program : Program) : ProgramDraft where
  name := program.name
  description := program.description
  steps := program.steps
  minSamples := program.minSamples

/-- One started copy of a program. -/
structure Run where
  id : RunId
  /-- Nothing once the program it came from was deleted. -/
  programId : Option ProgramId
  boardId : BoardId
  rootTask : TaskId
  startedBy : Uid
  /-- Where the root was made and where every step lands. -/
  columnId : ColumnId
  /-- The name the program had when it started. -/
  name : Text
  steps : List Step
  createdAt : Instant
  /-- When the root entered the started column. -/
  startedAt : Option Instant
  /-- When the root finished, by itself or by hand. -/
  finishedAt : Option Instant
  cancelledAt : Option Instant
  deriving DecidableEq, Repr

def Run.isActive (run : Run) : Bool := run.finishedAt.isNone && run.cancelledAt.isNone

/-- How a task belongs to a run. -/
structure StepRef where
  run : RunId
  step : Text
  iteration : ℕ
  /-- The step's question, as the run has it. -/
  question : Option Question
  /-- Finished, asked, and nobody has answered yet. -/
  pendingQuestion : Bool
  deriving DecidableEq, Repr

def StepRef.isRoot (link : StepRef) : Bool := link.step == rootKey

inductive ProgramError where
  | emptyName
  | nameTooLong
  | noRoot
  | noSamples
  | emptyKey
  | duplicateKey (key : Text)
  | title (key : Text) (error : TaskError)
  | unknownStep (step refers : Text)
  | waitsForRoot (key : Text)
  | neverAppears (key : Text)
  | offsetTooLarge (key : Text)
  | assigneeNotMember (key : Text) (uid : Uid)
  | print (key : Text) (error : TaskError)
  | question (error : QuestionError)
  | rootQuestion
  | noSuchAnswer (step other answer : Text)
  | emptyFanOut (key : Text)
  deriving DecidableEq, Repr

/-- Every key is visible and none is there twice, neither among the rest nor among those seen, all of
them trimmed. -/
def checkKeys (seen : List Text) : List Step → Except ProgramError Unit
  | [] => .ok ()
  | step :: rest => do
    ensure (trim step.key ≠ []) .emptyKey
    ensure (trim step.key ∉ seen) (.duplicateKey (trim step.key))
    checkKeys (seen ++ [trim step.key]) rest

/-- The step the validator takes a mention for. -/
def named (steps : List Step) (key : Text) : Option Step :=
  steps.find? fun step ↦ trim step.key == key

/-- The question the validator takes an answer trigger to wait for. -/
def asked (steps : List Step) (key : Text) : Option Question :=
  (named steps key).bind Step.question

/-- A mention is of a step that is there and is not the root. -/
def checkRefers (steps : List Step) (key refers : Text) : Except ProgramError Unit := do
  ensure (refers ≠ rootKey) (.waitsForRoot key)
  ensure (named steps refers).isSome (.unknownStep key refers)

/-- Waiting for an answer the other step cannot give would wait forever. -/
def checkAnswered (steps : List Step) (key : Text) : Trigger → Except ProgramError Unit
  | .answered other answer =>
    ensure (((asked steps other).bind fun question ↦ question.canonical answer).isSome)
      (.noSuchAnswer key other answer)
  | .withRoot | .rootStarted | .finished _ => .ok ()

def checkQuestion (step : Step) : Except ProgramError Unit :=
  match step.question with
  | some question => do
    ensure (step.isRoot = false) .rootQuestion
    question.validate.mapError .question
  | none => .ok ()

/-- An offset that would land off the calendar. -/
def tooLarge (offset : Offset) : Bool := decide (maxOffsetAmount < offset.amount)

/-- A step has an offset that would land off the calendar. -/
def Step.offsetTooLarge (step : Step) : Bool :=
  step.timeLimit.any tooLarge ||
    match step.start with
    | .afterTrigger offset => tooLarge offset
    | .daysLaterAt days _ => decide (maxOffsetAmount < days)
    | .manual | .whenRootStarts => false

def checkAssign (board : Board) (key : Text) : Assign → Except ProgramError Unit
  | .users uids =>
    checkAll (fun uid ↦ ensure (board.isMember uid) (.assigneeNotMember key uid)) uids
  | .starter | .nobody => .ok ()

/-- A fan-out list has a visible entry. -/
def checkFanOut (key : Text) : Option (List Text) → Except ProgramError Unit
  | some entries => ensure (∃ entry ∈ entries, trim entry ≠ []) (.emptyFanOut key)
  | none => .ok ()

/-- Everything checked about one step among the others. -/
def checkStep (steps : List Step) (board : Board) (step : Step) : Except ProgramError Unit := do
  let key := trim step.key
  (validateTitle step.title).mapError (.title key)
  checkAll (checkRefers steps key) step.refers
  checkAll (checkAnswered steps key) step.created
  checkQuestion step
  checkFanOut key step.fanOut
  ensure (step.isRoot = false → step.created ≠ []) (.neverAppears key)
  ensure (step.offsetTooLarge = false) (.offsetTooLarge key)
  checkAssign board key step.assign
  (validatePrintRules step.print board step.fanOut.isSome).mapError (.print key)

/-- Everything that can be checked with the board in hand. -/
def validate (draft : ProgramDraft) (board : Board) : Except ProgramError Unit := do
  ensure (trim draft.name ≠ []) .emptyName
  ensure ((trim draft.name).length ≤ maxNameChars) .nameTooLong
  ensure (draft.steps.any Step.isRoot) .noRoot
  ensure (draft.minSamples ≠ 0) .noSamples
  checkKeys [] draft.steps
  checkAll (checkStep draft.steps board) draft.steps

/-! ### What passes -/

theorem checkKeys_eq_ok {seen : List Text} {steps : List Step} :
    checkKeys seen steps = .ok () ↔
      (∀ step ∈ steps, trim step.key ≠ [] ∧ trim step.key ∉ seen) ∧
        (steps.map fun step ↦ trim step.key).Nodup := by
  induction steps generalizing seen with
  | nil => simp [checkKeys]
  | cons step rest ih =>
    simp only [checkKeys, bind_unit_eq_ok, ensure_eq_ok, ih, List.mem_append, List.mem_singleton,
      List.forall_mem_cons, List.map_cons, List.nodup_cons, List.mem_map]
    grind

theorem checkAnswers_eq_ok {seen answers : List Text} :
    Question.checkAnswers seen answers = .ok () ↔
      (∀ answer ∈ answers, foldAnswer answer ≠ [] ∧ foldAnswer answer ∉ seen) ∧
        (answers.map foldAnswer).Nodup := by
  induction answers generalizing seen with
  | nil => simp [Question.checkAnswers]
  | cons answer rest ih =>
    simp only [Question.checkAnswers, bind_unit_eq_ok, ensure_eq_ok, ih, List.mem_append,
      List.mem_singleton, List.forall_mem_cons, List.map_cons, List.nodup_cons, List.mem_map]
    grind

/-- The answers of a question that passes are apart for the validator. -/
theorem nodup_of_validate {question : Question} (h : question.validate = .ok ()) :
    (question.answers.map foldAnswer).Nodup := by
  cases hkind : question.kind with
  | yesNo =>
    rw [Question.answers, hkind]
    decide +kernel
  | choice answers =>
    simp only [Question.validate, hkind, bind_unit_eq_ok, checkAnswers_eq_ok] at h
    rw [Question.answers, hkind]
    exact h.2.2.1.2

/-- What a program that passes satisfies: its list of keys, and each of its steps. -/
theorem validate_eq_ok {draft : ProgramDraft} {board : Board} :
    validate draft board = .ok () ↔
      (trim draft.name ≠ [] ∧ (trim draft.name).length ≤ maxNameChars) ∧
        (∃ step ∈ draft.steps, step.isRoot) ∧ draft.minSamples ≠ 0 ∧
        ((∀ step ∈ draft.steps, trim step.key ≠ []) ∧
          (draft.steps.map fun step ↦ trim step.key).Nodup) ∧
        ∀ step ∈ draft.steps, checkStep draft.steps board step = .ok () := by
  simp [validate, checkKeys_eq_ok, and_assoc]

/-- The keys of a program that passes are apart also before trimming. -/
theorem keyed_of_validate {draft : ProgramDraft} {board : Board}
    (hvalid : validate draft board = .ok ()) : Keyed Step.key draft.steps := by
  obtain ⟨-, -, -, ⟨-, hkeys⟩, -⟩ := validate_eq_ok.mp hvalid
  have hcomp : (draft.steps.map Step.key).map trim = draft.steps.map fun s ↦ trim s.key := by
    rw [List.map_map]
    rfl
  exact List.Nodup.of_map trim (hcomp ▸ hkeys)

/-- No step of a program that passes mentions the root. -/
theorem refers_ne_rootKey {draft : ProgramDraft} {board : Board}
    (hvalid : validate draft board = .ok ()) {step : Step} (hstep : step ∈ draft.steps)
    {refers : Text} (hrefers : refers ∈ step.refers) : refers ≠ rootKey := by
  have hchecked := (validate_eq_ok.mp hvalid).2.2.2.2 step hstep
  simp only [checkStep, bind_unit_eq_ok, checkAll_eq_ok] at hchecked
  have hrefer := hchecked.2.1 refers hrefers
  simp only [checkRefers, bind_unit_eq_ok, ensure_eq_ok] at hrefer
  exact hrefer.1

theorem mem_refers_of_finished {step : Step} {refers : Text} (h : .finished refers ∈ step.created) :
    refers ∈ step.refers :=
  List.mem_append_left _ (List.mem_filterMap.mpr ⟨_, h, rfl⟩)

theorem mem_refers_of_answered {step : Step} {refers answer : Text}
    (h : .answered refers answer ∈ step.created) : refers ∈ step.refers :=
  List.mem_append_left _ (List.mem_filterMap.mpr ⟨_, h, rfl⟩)

end Taskologic.Core
