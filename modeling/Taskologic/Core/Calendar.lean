import Taskologic.Core.Repetition

/-!
# The calendar

Days as years, months and days of a month, in the Gregorian calendar carried on in both directions. The
calendar holds the years from `firstYear` to `lastYear`. A date of a day is the day of that date
(`dayOf_civilOf`). `addMonths` and `withYear` move a moment by what the wall clock of a zone shows, and have
no answer where the date is not in the calendar, does not exist, or is not shown exactly once.

Scope. As in `Day.civil`, a year is counted as if it began in March, so that a leap day is its last.
-/

set_option autoImplicit false
set_option relaxedAutoImplicit false

namespace Taskologic.Core

/-- A date of the calendar. -/
structure CivilDate where
  year : ℤ
  month : ℤ
  day : ℤ
  deriving DecidableEq, Repr

def firstYear : ℤ := -262143

def lastYear : ℤ := 262142

/-- The days of an era, which is 400 years, before one of its years. -/
def daysBefore (yearOfEra : ℤ) : ℤ := yearOfEra * 365 + yearOfEra / 4 - yearOfEra / 100

/-- The date of a day. -/
def civilOf (day : Day) : CivilDate :=
  let (year, month, dayOfMonth) := day.civil
  ⟨year, month, dayOfMonth⟩

/-- The day of a date. -/
def dayOf (date : CivilDate) : Day :=
  let year := if date.month ≤ 2 then date.year - 1 else date.year
  let monthFromMarch := if date.month ≤ 2 then date.month + 9 else date.month - 3
  let dayOfYear := (153 * monthFromMarch + 2) / 5 + date.day - 1
  year / 400 * 146097 + daysBefore (year % 400) + dayOfYear - 719468

def lengthOfMonth (year month : ℤ) : ℤ :=
  if month = 2 then if isLeapYear year then 29 else 28
  else if month = 4 ∨ month = 6 ∨ month = 9 ∨ month = 11 then 30
  else 31

/-- The year of an era that a day of it is in, the way `Day.civil` finds it. -/
def yearOfEra (day : ℤ) : ℤ := (day - day / 1460 + day / 36524 - day / 146096) / 365

/-- A day of an era is in one of its 400 years, and none of these has more than 366 days. It is found by
centuries, spans of four years, and years, the last of which may be a day longer. -/
theorem dayOfEra_bounds {day : ℤ} (hlow : 0 ≤ day) (hhigh : day < 146097) :
    0 ≤ yearOfEra day ∧ yearOfEra day < 400 ∧ 0 ≤ day - daysBefore (yearOfEra day) ∧
      day - daysBefore (yearOfEra day) < 366 := by
  obtain ⟨century, hcentury⟩ : ∃ century, min (day / 36524) 3 = century := ⟨_, rfl⟩
  obtain ⟨span, hspan⟩ : ∃ span, (day - century * 36524) / 1461 = span := ⟨_, rfl⟩
  obtain ⟨year, hyear⟩ : ∃ year, min ((day - century * 36524 - span * 1461) / 365) 3 = year := ⟨_, rfl⟩
  have hcenturies : 0 ≤ century ∧ century ≤ 3 := by omega
  have hspans : 0 ≤ span ∧ span ≤ 24 := by omega
  have hyears : 0 ≤ year ∧ year ≤ 3 := by omega
  have hera : yearOfEra day = century * 100 + span * 4 + year := by
    unfold yearOfEra
    have hleaps : day / 1460 = century * 25 + span + (day - century * 36500 - span * 1460) / 1460 := by omega
    have hcarry : day / 36524 - day / 146096 = century := by omega
    omega
  have hfour : (century * 100 + span * 4 + year) / 4 = century * 25 + span := by omega
  have hhundred : (century * 100 + span * 4 + year) / 100 = century := by omega
  rw [daysBefore, hera, hfour, hhundred]
  omega

/-- A year with a day of it, counted from March on, is the year and the month and day found for it. -/
theorem dayOf_inYear (year : ℤ) {dayOfYear month : ℤ} (hlow : 0 ≤ dayOfYear) (hhigh : dayOfYear < 366)
    (hmonth : month = (5 * dayOfYear + 2) / 153) :
    dayOf ⟨year + (if (if month < 10 then month + 3 else month - 9) ≤ 2 then 1 else 0),
        if month < 10 then month + 3 else month - 9, dayOfYear - (153 * month + 2) / 5 + 1⟩ =
      year / 400 * 146097 + daysBefore (year % 400) + dayOfYear - 719468 := by
  have hmonths : 0 ≤ month ∧ month < 12 := by omega
  unfold dayOf
  by_cases hlate : month < 10
  · have hmarch : ¬ month + 3 ≤ 2 := by omega
    simp only [hlate, if_true, hmarch, if_false, add_sub_cancel_right, add_zero]
    ring
  · have hmarch : month - 9 ≤ 2 := by omega
    simp only [hlate, if_false, hmarch, if_true, add_sub_cancel_right, sub_add_cancel]
    ring

/-- The day of the date of a day is that day. -/
theorem dayOf_civilOf (day : Day) : dayOf (civilOf day) = day := by
  have hlow : 0 ≤ (day + 719468) % 146097 := Int.emod_nonneg _ (by decide)
  have hhigh : (day + 719468) % 146097 < 146097 := Int.emod_lt_of_pos _ (by decide)
  obtain ⟨hyear, hyear', hday, hday'⟩ := dayOfEra_bounds hlow hhigh
  have hera (years era : ℤ) (hyear : 0 ≤ years) (hyear' : years < 400) :
      (years + era * 400) / 400 = era ∧ (years + era * 400) % 400 = years := by omega
  obtain ⟨hquotient, hrest⟩ := hera _ ((day + 719468) / 146097) hyear hyear'
  have hcivil := dayOf_inYear (yearOfEra ((day + 719468) % 146097) + (day + 719468) / 146097 * 400) hday hday' rfl
  rw [hquotient, hrest] at hcivil
  have hsum := Int.mul_ediv_add_emod (day + 719468) 146097
  unfold civilOf Day.civil
  dsimp only
  unfold daysBefore yearOfEra at hcivil
  rw [mul_comm 365]
  linarith

example : civilOf firstDay = ⟨firstYear, 1, 1⟩ ∧ civilOf lastDay = ⟨lastYear, 12, 31⟩ := by decide +kernel

example : dayOf ⟨2000, 2, 29⟩ = 11016 ∧ civilOf 11017 = ⟨2000, 3, 1⟩ := by decide

/-! ### Moving by the wall clock -/

/-- The calendar holds the moment. -/
def inCalendar (moment : Instant) : Bool :=
  decide (firstDay * 86400 ≤ moment) && decide (moment < (lastDay + 1) * 86400)

def inYears (year : ℤ) : Bool := decide (firstYear ≤ year) && decide (year ≤ lastYear)

/-- `TimeZone::from_local_datetime`: moments outside of the calendar are none. -/
def Zone.atWall (zone : Zone) (naive : WallClock) : LocalResult :=
  match zone.fromLocal naive with
  | .single moment => if inCalendar moment then .single moment else .none
  | .ambiguous earliest latest =>
    if inCalendar earliest && inCalendar latest then .ambiguous earliest latest else .none
  | .none => .none

/-- `LocalResult::single`. -/
def LocalResult.single? : LocalResult → Option Instant
  | single moment => some moment
  | ambiguous _ _ | none => Option.none

/-- The date a zone shows at a moment, which may be a day beside the calendar. -/
def Zone.dateAt (zone : Zone) (moment : Instant) : CivilDate := civilOf (zone.toLocal moment / 86400)

/-- What the wall clock shows a number of months later: where the month is shorter, on its last day. -/
def Zone.wallAfterMonths (zone : Zone) (moment : Instant) (months : ℤ) : Option WallClock :=
  let naive := zone.toLocal moment
  let date := zone.dateAt moment
  let count := date.year * 12 + (date.month - 1) + months
  let year := count / 12
  let month := count % 12 + 1
  if months = 0 then some naive
  else if inYears year then
    some (dayOf ⟨year, month, min date.day (lengthOfMonth year month)⟩ * 86400 + naive % 86400)
  else none

/-- `DateTime::checked_add_months`, and `checked_sub_months` with a sign. -/
def addMonths (zone : Zone) (moment : Instant) (months : ℤ) : Option Instant := do
  let naive ← zone.wallAfterMonths moment months
  (zone.atWall naive).single?

/-- What the wall clock shows on the same day of another year, which may not have that day. -/
def Zone.wallInYear (zone : Zone) (moment : Instant) (year : ℤ) : Option WallClock :=
  let naive := zone.toLocal moment
  let date := zone.dateAt moment
  if date.year = year then some naive
  else if inYears year && decide (date.day ≤ lengthOfMonth year date.month) then
    some (dayOf { date with year } * 86400 + naive % 86400)
  else none

/-- `DateTime::with_year`. -/
def withYear (zone : Zone) (moment : Instant) (year : ℤ) : Option Instant := do
  let naive ← zone.wallInYear moment year
  (zone.atWall naive).single?

/-- A wall clock time that a zone shows at moments outside of the calendar only. -/
def Zone.offCalendar (zone : Zone) (naive : WallClock) : Bool :=
  match zone.fromLocal naive with
  | .single moment => !inCalendar moment
  | .ambiguous earliest latest => !(inCalendar earliest && inCalendar latest)
  | .none => false

theorem checkedAdd_eq_some_iff {moment : Instant} {seconds : ℤ} {later : Instant} :
    checkedAdd moment seconds = some later ↔ inCalendar (moment + seconds) = true ∧ moment + seconds = later := by
  simp only [checkedAdd, inCalendar, Bool.and_eq_true, decide_eq_true_eq]
  split_ifs with h <;> simp [h]

/-! ### In writing -/

/-- A number with zeros before it. -/
def padded (width n : ℕ) : Text := (decimal n).leftpad width '0'

/-- `%Y`. -/
def yearText (year : ℤ) : Text :=
  if 0 ≤ year ∧ year < 10000 then padded 4 year.natAbs
  else (if year < 0 then '-' else '+') :: padded 4 year.natAbs

/-- `%Y-%m-%d`. -/
def dateText (date : CivilDate) : Text :=
  yearText date.year ++ '-' :: padded 2 date.month.natAbs ++ '-' :: padded 2 date.day.natAbs

/-- `%H:%M`. -/
def timeText (naive : WallClock) : Text :=
  padded 2 (naive % 86400 / 3600).natAbs ++ ':' :: padded 2 (naive % 3600 / 60).natAbs

example : dateText (civilOf 0) = text "1970-01-01" ∧ timeText (-60) = text "23:59" := by decide

end Taskologic.Core
