import Taskologic.Core.Board

/-!
# Drafts of tasks

What a client sends to create or save a task, and what a program makes a task from: a `TaskDraft`.
`validateDraft` checks everything about it that can be checked without the database; whether the
dependencies exist and close no cycle is the daemon's job.

The print rules of a task and its repetition are here with the checks they have to pass.
`validateDraft_eq_ok` and `validatePrintRules_eq_ok` state what a draft that passes satisfies.

Scope. What a print rule puts on paper and when a repetition fires are left out.
-/

set_option autoImplicit false
set_option relaxedAutoImplicit false

namespace Taskologic.Core

open Library

/-! ### Print rules -/

/-- When one of a task's own print rules fires. -/
inductive PrintWhen where
  /-- The moment the task is made. -/
  | onCreate
  /-- When work begins. -/
  | onStart
  /-- So long before the due date. -/
  | beforeDue (lead : Offset)
  deriving DecidableEq, Repr

/-- Which slip a rule prints. -/
inductive SlipKind where
  | task
  | reminder
  /-- One slip for every task a fan-out step made at once. -/
  | sheet
  deriving DecidableEq, Repr

/-- Who a rule prints for. -/
inductive Recipients where
  | assignees
  | creator
  | users (uids : List Uid)
  deriving DecidableEq, Repr

/-- One print rule on a task: when, which slip, for whom. -/
structure PrintRule where
  «when» : PrintWhen
  slip : SlipKind
  recipients : Recipients
  deriving DecidableEq, Repr

/-! ### Repetition -/

inductive Weekday where
  | mon | tue | wed | thu | fri | sat | sun
  deriving DecidableEq, Repr

inductive Repeat where
  /-- Every so many days counted from `since`. -/
  | everyDays (every : ℕ) (since : Day)
  | weekdays (days : List Weekday)
  /-- Clamped to the last day of shorter months. -/
  | dayOfMonth (day : ℕ)
  /-- Fires once. -/
  | fixedDate (date : Day)
  deriving DecidableEq, Repr

structure RepeatSpec where
  rule : Repeat
  /-- Local time of day the copy is created. -/
  time : TimeOfDay
  tz : Tz
  startRule : Option Offset
  dueRule : Option Offset
  deriving DecidableEq, Repr

inductive RepeatError where
  | zeroInterval
  | noWeekdays
  | badDayOfMonth
  deriving DecidableEq, Repr

def Repeat.validate : Repeat → Except RepeatError Unit
  | everyDays every _ => ensure (every ≠ 0) .zeroInterval
  | weekdays days => ensure (days ≠ []) .noWeekdays
  | dayOfMonth day => ensure (1 ≤ day ∧ day ≤ 31) .badDayOfMonth
  | fixedDate _ => .ok ()

def RepeatSpec.validate (spec : RepeatSpec) : Except RepeatError Unit := spec.rule.validate

/-! ### Drafts -/

/-- One line of a task's checklist. -/
structure ChecklistItem where
  text : Text
  done : Bool
  deriving DecidableEq, Repr

structure TaskDraft where
  title : Text
  description : Text
  startAt : Option Instant
  dueAt : Option Instant
  reminderStartMinutes : Option ℕ
  reminderDueMinutes : Option ℕ
  assignees : List Uid
  dependsOn : List TaskId
  checklist : List ChecklistItem
  repeats : Option RepeatSpec
  printRules : List PrintRule
  autoStart : Bool
  deriving DecidableEq, Repr

inductive TaskError where
  | emptyTitle
  | titleTooLong
  | assigneeNotMember (uid : Uid)
  | reminderTooEarly
  | startAfterDue
  | printRecipientNotMember (uid : Uid)
  | noPrintRecipients
  | printLeadTooLarge
  | sheetNeedsFanOut
  | repeats (error : RepeatError)
  deriving DecidableEq, Repr

/-- `MAX_TITLE_CHARS`. -/
def maxTitleChars : ℕ := 200

/-- `MAX_REMINDER_MINUTES`: a year. -/
def maxReminderMinutes : ℕ := 365 * 24 * 60

def validateTitle (title : Text) : Except TaskError Unit := do
  ensure (trim title ≠ []) .emptyTitle
  ensure ((trim title).length ≤ maxTitleChars) .titleTooLong

/-- The named people of a rule are on the board, and there is one. -/
def validateRecipients (board : Board) : Recipients → Except TaskError Unit
  | .users uids => do
    ensure (uids ≠ []) .noPrintRecipients
    checkAll (fun uid ↦ ensure (board.isMember uid) (.printRecipientNotMember uid)) uids
  | .assignees | .creator => .ok ()

/-- One rule a task may carry. `sheets` is whether a group sheet makes sense here. -/
def validatePrintRule (board : Board) (sheets : Bool) (rule : PrintRule) :
    Except TaskError Unit := do
  ensure (rule.slip = .sheet → sheets ∧ rule.when = .onCreate) .sheetNeedsFanOut
  match rule.when with
  | .beforeDue lead => ensure (lead.amount ≤ maxOffsetAmount) .printLeadTooLarge
  | .onCreate | .onStart => .ok ()
  validateRecipients board rule.recipients

/-- The rules a task may carry: a lead time that lands on a real date, and named people who are on
the board. -/
def validatePrintRules (rules : List PrintRule) (board : Board) (sheets : Bool) :
    Except TaskError Unit :=
  checkAll (validatePrintRule board sheets) rules

/-- A reminder that counts back more than a year. -/
def tooEarly : Option ℕ → Bool
  | some minutes => decide (maxReminderMinutes < minutes)
  | none => false

/-- Both dates are there and the first is after the second. -/
def startsAfter : Option Instant → Option Instant → Bool
  | some start, some due => decide (due < start)
  | _, _ => false

/-- Checks everything that can be checked without the database. -/
def validateDraft (draft : TaskDraft) (board : Board) : Except TaskError Unit := do
  validateTitle draft.title
  checkAll (fun uid ↦ ensure (board.isMember uid) (.assigneeNotMember uid)) draft.assignees
  ensure (tooEarly draft.reminderDueMinutes = false ∧ tooEarly draft.reminderStartMinutes = false)
    .reminderTooEarly
  ensure (startsAfter draft.startAt draft.dueAt = false) .startAfterDue
  match draft.repeats with
  | some spec => spec.validate.mapError .repeats
  | none => .ok ()
  validatePrintRules draft.printRules board false

/-! ### What passes -/

/-- The named people of a rule are on the board, and there is one. -/
def Recipients.Allowed (board : Board) : Recipients → Prop
  | .users uids => uids ≠ [] ∧ ∀ uid ∈ uids, board.isMember uid
  | .assignees | .creator => True

instance (board : Board) (recipients : Recipients) : Decidable (recipients.Allowed board) :=
  match recipients with
  | .users uids => inferInstanceAs (Decidable (uids ≠ [] ∧ ∀ uid ∈ uids, board.isMember uid))
  | .assignees | .creator => inferInstanceAs (Decidable True)

/-- The lead time of a rule lands on a real date. -/
def PrintWhen.InRange : PrintWhen → Prop
  | .beforeDue lead => lead.amount ≤ maxOffsetAmount
  | .onCreate | .onStart => True

theorem validateTitle_eq_ok {title : Text} :
    validateTitle title = .ok () ↔ trim title ≠ [] ∧ (trim title).length ≤ maxTitleChars := by
  simp [validateTitle]

theorem validateRecipients_eq_ok {board : Board} {recipients : Recipients} :
    validateRecipients board recipients = .ok () ↔ recipients.Allowed board := by
  cases recipients <;> simp [validateRecipients, Recipients.Allowed]

theorem validatePrintRules_eq_ok {rules : List PrintRule} {board : Board} {sheets : Bool} :
    validatePrintRules rules board sheets = .ok () ↔
      ∀ rule ∈ rules, (rule.slip = .sheet → sheets ∧ rule.when = .onCreate) ∧
        rule.when.InRange ∧ rule.recipients.Allowed board := by
  simp only [validatePrintRules, checkAll_eq_ok]
  refine forall₂_congr fun rule _ ↦ ?_
  cases hwhen : rule.when <;>
    simp [validatePrintRule, hwhen, PrintWhen.InRange, validateRecipients_eq_ok]

/-- A draft passes exactly when each of its fields does. -/
theorem validateDraft_eq_ok {draft : TaskDraft} {board : Board} :
    validateDraft draft board = .ok () ↔
      validateTitle draft.title = .ok () ∧ (∀ uid ∈ draft.assignees, board.isMember uid) ∧
        (tooEarly draft.reminderDueMinutes = false ∧
          tooEarly draft.reminderStartMinutes = false) ∧
        startsAfter draft.startAt draft.dueAt = false ∧
        (∀ spec ∈ draft.repeats, spec.validate = .ok ()) ∧
        validatePrintRules draft.printRules board false = .ok () := by
  cases hrepeats : draft.repeats <;> simp [validateDraft, hrepeats]

end Taskologic.Core
