import Taskologic.Core.Task

/-!
# Repeating tasks

A repetition is a rule and a local time of day in a zone. `RepeatSpec.nextFireAfter` is the first firing
strictly after a moment: it walks the days of the wall clock from the day of that moment on, as many of
them as a match is guaranteed within (`Repeat.horizonDays`). `nextInstance` is the draft of the next copy
of a repeating task.

Days are counted from the epoch; `Day.civil` gives the year, the month and the day of the month of the
proleptic Gregorian calendar.

Scope. An interval of zero days, which the validator refuses, has no remainder in the source; here it
matches the day it counts from.
-/

set_option autoImplicit false
set_option relaxedAutoImplicit false

namespace Taskologic.Core

/-! ### The calendar -/

/-- The year, the month and the day of the month. The count starts at the first of March of the year
zero, so that the leap day is the last of a year, and goes by eras of 400 years. -/
def Day.civil (day : Day) : ℤ × ℤ × ℤ :=
  let shifted := day + 719468
  let era := shifted / 146097
  let dayOfEra := shifted % 146097
  let yearOfEra :=
    (dayOfEra - dayOfEra / 1460 + dayOfEra / 36524 - dayOfEra / 146096) / 365
  let dayOfYear := dayOfEra - (365 * yearOfEra + yearOfEra / 4 - yearOfEra / 100)
  let monthFromMarch := (5 * dayOfYear + 2) / 153
  let month := if monthFromMarch < 10 then monthFromMarch + 3 else monthFromMarch - 9
  (yearOfEra + era * 400 + (if month ≤ 2 then 1 else 0), month,
    dayOfYear - (153 * monthFromMarch + 2) / 5 + 1)

def Day.dayOfMonth (day : Day) : ℤ := day.civil.2.2

/-- The epoch was a Thursday. -/
def Day.weekday (day : Day) : Weekday :=
  match (day + 3) % 7 with
  | 0 => .mon
  | 1 => .tue
  | 2 => .wed
  | 3 => .thu
  | 4 => .fri
  | 5 => .sat
  | _ => .sun

def isLeapYear (year : ℤ) : Bool := year % 4 == 0 && (year % 100 != 0 || year % 400 == 0)

/-- The length of the month a day is in. The last month the calendar holds has no day after it to count
back from and gives 28. -/
def daysInMonth (date : Day) : ℤ :=
  let (year, month, _) := date.civil
  if year = 262142 ∧ month = 12 then 28
  else if month = 2 then if isLeapYear year then 29 else 28
  else if month = 4 ∨ month = 6 ∨ month = 9 ∨ month = 11 then 30
  else 31

/-- `NaiveDate::succ_opt`. -/
def succOpt (date : Day) : Option Day := if date < lastDay then some (date + 1) else none

/-! ### Rules -/

namespace Repeat

/-- The rule fires on a day. -/
def matchesDay (rule : Repeat) (date : Day) : Bool :=
  match rule with
  | everyDays every since => decide (since ≤ date) && (date - since) % every == 0
  | weekdays days => days.contains date.weekday
  | dayOfMonth day => date.dayOfMonth == min (day : ℤ) (daysInMonth date)
  | fixedDate day => date == day

/-- How far ahead a match is guaranteed to exist, in days. -/
def horizonDays : Repeat → ℕ
  | everyDays every _ => min (every + 1) (2 ^ 32 - 1)
  | weekdays _ => 8
  | dayOfMonth _ => 32
  | fixedDate _ => 1

end Repeat

namespace RepeatSpec

variable (spec : RepeatSpec)

/-- The loop of `nextFireAfter`: looks at so many days, each with the moment the rule would fire at. -/
def search (zone : Zone) (localNow : WallClock) : ℕ → Day → Option Instant
  | 0, _ => none
  | days + 1, date =>
    if spec.rule.matchesDay date && decide (localNow < date * 86400 + spec.time.val) then
      some (localToUtc zone (date * 86400 + spec.time.val))
    else (succOpt date).bind (search zone localNow days)

/-- The first firing strictly after a moment, if the rule is not exhausted. -/
def nextFireAfter (zone : Zone) (after : Instant) : Option Instant :=
  let localNow := zone.toLocal after
  let date := localNow / 86400
  match spec.rule with
  | .fixedDate day => if day < date then none else spec.search zone localNow 1 day
  | .everyDays _ since =>
    spec.search zone localNow spec.rule.horizonDays (if date < since then since else date)
  | .weekdays _ | .dayOfMonth _ => spec.search zone localNow spec.rule.horizonDays date

end RepeatSpec

/-- The draft for the next copy of a repeating task. A rule that would date the copy as due before it
starts leaves it without a due date, people who left the board are dropped, and the checklist starts
unticked. -/
def nextInstance (task : Task) (board : Board) (firedAt : Instant) : TaskDraft :=
  let startAt := (task.repeats.bind RepeatSpec.startRule).bind fun offset ↦ offset.after firedAt
  let dueAt := (task.repeats.bind RepeatSpec.dueRule).bind fun offset ↦ offset.after firedAt
  { title := task.title
    description := task.description
    startAt
    dueAt := dueAt.filter fun due ↦ startAt.all fun start ↦ start ≤ due
    reminderStartMinutes := task.reminderStartMinutes
    reminderDueMinutes := task.reminderDueMinutes
    assignees := task.assignees.filter board.isMember
    dependsOn := []
    checklist := task.checklist.map fun item ↦ ⟨item.text, false⟩
    repeats := task.repeats
    printRules := task.printRules
    autoStart := task.autoStart }

/-- The first of September 2026 is a Tuesday. -/
example : Day.civil 20697 = (2026, 9, 1) ∧ Day.weekday 20697 = .tue := by decide +kernel

end Taskologic.Core
