import Taskologic.Library.Outcome
import Taskologic.Core.Calendar
import Taskologic.Core.Control

/-!
# Values of a control code

A command that sets a date, types a text or sets a reminder works down a list of values. Each function here
is `Outcome.steps` over the values, so `Outcome.Reaches` says which values it comes to and what the field is
by then.

The functions do not always fail softly (`valuesFailSoftly_iff`). Minutes, hours, days and weeks that leave
the calendar panic, and so do sums of years and products of minutes that do not fit; months and years that
leave the calendar stand still without a word; an amount of years from 2 ^ 31 on goes back instead of forth.
`ShiftLands` and `ShiftLeaves` say which offsets do either.

Scope. An overflow is a panic, as in a build that checks for it. What an error says is the name of its
constructor.
-/

set_option autoImplicit false
set_option relaxedAutoImplicit false

namespace Taskologic.Client

open Library Core

/-- The errors of the functions on values. -/
inductive ValuesError where
  /-- "that is text, not a date" -/
  | textNotDate
  /-- "only start and due together take a second value" -/
  | secondValue
  /-- "… is not a number of minutes" -/
  | notMinutes (typed : Text)
  /-- "a reminder wants a number of minutes or an offset" -/
  | reminderWants
  deriving DecidableEq, Repr

variable {ε : Type}

/-! ### Numbers of the machine -/

/-- `u32 as i32`. -/
def asI32 (n : ℕ) : ℤ := if n < 2 ^ 31 then n else n - 2 ^ 32

/-- A sum of type `i32`. -/
def checkedI32 (n : ℤ) : Outcome ε ℤ := if -2 ^ 31 ≤ n ∧ n < 2 ^ 31 then .ok n else .panicked

/-- A product of type `u32`. -/
def checkedU32 (n : ℕ) : Outcome ε ℕ := if n < 2 ^ 32 then .ok n else .panicked

/-- A moment plus a `TimeDelta`. -/
def addDelta (moment : Instant) (seconds : ℤ) : Outcome ε Instant :=
  match checkedAdd moment seconds with
  | some later => .ok later
  | none => .panicked

/-- `DateTime::date_naive`. -/
def dateNaive (zone : Zone) (moment : Instant) : Outcome ε Day :=
  let date := zone.toLocal moment / 86400
  if firstDay ≤ date ∧ date ≤ lastDay then .ok date else .panicked

/-! ### The functions -/

def signed (n : ℕ) (back : Bool) : ℤ := if back then -n else n

def shift (zone : Zone) (moment : Instant) (n : ℕ) (unit : TimeUnit) (back : Bool) : Outcome ε Instant :=
  match unit with
  | .minutes => addDelta moment (signed n back * 60)
  | .hours => addDelta moment (signed n back * 3600)
  | .days => addDelta moment (signed n back * 86400)
  | .weeks => addDelta moment (signed n back * 604800)
  | .months => .ok ((addMonths zone moment (signed n back)).getD moment)
  | .years =>
    let year := (zone.dateAt moment).year
    (checkedI32 (if back then year - asI32 n else year + asI32 n)).bind fun target ↦
      match withYear zone moment target with
      | some moved => .ok moved
      | none =>
        -- February 29th in a year without one: the day before.
        (addDelta moment (-86400)).bind fun before ↦ .ok ((withYear zone before target).getD moment)

/-- `local_to_utc`. -/
def localOr (zone : Zone) (naive : WallClock) (fallback : Instant) : Instant :=
  match zone.atWall naive with
  | .single moment => moment
  | .ambiguous earliest _ => earliest
  | .none => fallback

/-- One round of `values_date`. -/
def dateStep (zone : Zone) (now : Instant) (field : Option Instant) :
    Value → Outcome ValuesError (Option Instant)
  | .now => .ok (some now)
  | .today =>
    let time := zone.toLocal (field.getD now) % 86400
    (dateNaive zone now).bind fun today ↦ .ok (some (localOr zone (today * 86400 + time) now))
  | .time =>
    (dateNaive zone now).bind fun today ↦
      (match field with
        | some moment => dateNaive zone moment
        | none => .ok today).bind fun date ↦
        .ok (some (localOr zone (date * 86400 + zone.toLocal now % 86400) now))
  | .plus n unit => (shift zone (field.getD now) n unit false).bind fun moved ↦ .ok (some moved)
  | .minus n unit => (shift zone (field.getD now) n unit true).bind fun moved ↦ .ok (some moved)
  | .clear => .ok none
  | .me | .text _ => .err .textNotDate
  | .split => .err .secondValue

def valuesDate (zone : Zone) (now : Instant) (current : Option Instant) (values : List Value) :
    Outcome ValuesError (Option Instant) :=
  Outcome.steps (dateStep zone now) current values

/-- The minutes of a unit. -/
def minutesOf : TimeUnit → ℕ
  | .minutes => 1
  | .hours => 60
  | .days => 60 * 24
  | .weeks => 60 * 24 * 7
  | .months => 60 * 24 * 30
  | .years => 60 * 24 * 365

/-- One round of `values_minutes`. -/
def minutesStep (_ : Option ℕ) : Value → Outcome ValuesError (Option ℕ)
  | .clear => .ok none
  | .text t => (Outcome.okOr (.notMinutes t) (parseUnsigned 32 (trim t))).bind fun n ↦ .ok (some n)
  | .plus n unit => (checkedU32 (n * minutesOf unit)).bind fun minutes ↦ .ok (some minutes)
  | .now | .today | .time | .minus _ _ | .me | .split => .err .reminderWants

def valuesMinutes (values : List Value) : Outcome ValuesError (Option ℕ) :=
  Outcome.steps minutesStep none values

/-- What part of a moment is typed. -/
inductive Kind where
  | dateTime
  | date
  | time
  deriving DecidableEq, Repr

/-- What `values_text` has put together so far. -/
structure Typed where
  when_ : Option (Instant × Kind)
  text : Text
  deriving DecidableEq, Repr

/-- One round of `values_text`. -/
def textStep (zone : Zone) (now : Instant) (username : Text) (typed : Typed) :
    Value → Outcome ValuesError Typed
  | .now => .ok { typed with when_ := some (now, .dateTime) }
  | .today => .ok { typed with when_ := some (now, .date) }
  | .time => .ok { typed with when_ := some (now, .time) }
  | .plus n unit =>
    let when_ := typed.when_.getD (now, .dateTime)
    (shift zone when_.1 n unit false).bind fun moved ↦ .ok { typed with when_ := some (moved, when_.2) }
  | .minus n unit =>
    let when_ := typed.when_.getD (now, .dateTime)
    (shift zone when_.1 n unit true).bind fun moved ↦ .ok { typed with when_ := some (moved, when_.2) }
  | .me => .ok { typed with text := typed.text ++ username }
  | .clear => .ok { typed with text := [] }
  | .split => .ok typed
  | .text t => .ok { typed with text := typed.text ++ t }

def typeWhen (zone : Zone) : Instant × Kind → Text
  | (moment, .dateTime) => dateText (zone.dateAt moment) ++ ' ' :: timeText (zone.toLocal moment)
  | (moment, .date) => dateText (zone.dateAt moment)
  | (moment, .time) => timeText (zone.toLocal moment)

def valuesText (zone : Zone) (now : Instant) (username : Text) (values : List Value) :
    Outcome ValuesError Text :=
  (Outcome.steps (textStep zone now username) ⟨none, []⟩ values).bind fun typed ↦
    .ok ((typed.when_.map (typeWhen zone)).getD [] ++ typed.text)

/-! ### Failing softly -/

/-- A number of years that becomes another one as an `i32`. -/
def Wraps : Value → Prop
  | .plus n .years | .minus n .years => 2 ^ 31 ≤ n
  | _ => False

/-- Working down values to an answer fails softly: it does not panic, no number it meets wraps, and where a
date leaves the calendar it has an error. -/
structure FailsSoftly {σ ρ : Type} (answer : Outcome ε ρ) (step : σ → Value → Outcome ε σ) (state : σ)
    (values : List Value) (wraps : Value → Prop) (leaves : σ → Value → Prop) : Prop where
  returns : answer ≠ .panicked
  exact_ : ∀ at_ value, Outcome.Reaches step state values at_ value → ¬ wraps value
  refuses : (∃ at_ value, Outcome.Reaches step state values at_ value ∧ leaves at_ value) →
    ∃ error, answer = .err error

/-- The offset leads to a date that is not in the calendar. -/
def ShiftLeaves (zone : Zone) (moment : Instant) (n : ℕ) (unit : TimeUnit) (back : Bool) : Prop :=
  match unit with
  | .minutes => inCalendar (moment + signed n back * 60) = false
  | .hours => inCalendar (moment + signed n back * 3600) = false
  | .days => inCalendar (moment + signed n back * 86400) = false
  | .weeks => inCalendar (moment + signed n back * 604800) = false
  | .months =>
    match zone.wallAfterMonths moment (signed n back) with
    | some naive => zone.offCalendar naive = true
    | none => True
  | .years =>
    let target := (zone.dateAt moment).year + signed n back
    match zone.wallInYear moment target with
    | some naive => zone.offCalendar naive = true
    | none => inYears target = false

/-- The offset is one that neither panics nor wraps. -/
def ShiftLands (zone : Zone) (moment : Instant) (n : ℕ) (unit : TimeUnit) (back : Bool) : Prop :=
  match unit with
  | .minutes => inCalendar (moment + signed n back * 60) = true
  | .hours => inCalendar (moment + signed n back * 3600) = true
  | .days => inCalendar (moment + signed n back * 86400) = true
  | .weeks => inCalendar (moment + signed n back * 604800) = true
  | .months => True
  | .years =>
    let target := (zone.dateAt moment).year + signed n back
    n < 2 ^ 31 ∧ -2 ^ 31 ≤ target ∧ target < 2 ^ 31 ∧
      (withYear zone moment target = none → inCalendar (moment - 86400) = true)

/-- A zone shows a moment on a day of the calendar. -/
def ShowsDate (zone : Zone) (moment : Instant) : Prop :=
  firstDay ≤ zone.toLocal moment / 86400 ∧ zone.toLocal moment / 86400 ≤ lastDay

theorem addDelta_ne_panicked_iff {moment : Instant} {seconds : ℤ} :
    (addDelta moment seconds : Outcome ε Instant) ≠ .panicked ↔ inCalendar (moment + seconds) = true := by
  unfold addDelta
  cases hsum : checkedAdd moment seconds with
  | none =>
    have hout (later : Instant) : checkedAdd moment seconds ≠ some later := by simp [hsum]
    simpa [checkedAdd_eq_some_iff] using hout
  | some later =>
    simpa using (checkedAdd_eq_some_iff.mp hsum).1

theorem checkedI32_ne_panicked_iff {n : ℤ} :
    (checkedI32 n : Outcome ε ℤ) ≠ .panicked ↔ -2 ^ 31 ≤ n ∧ n < 2 ^ 31 := by
  unfold checkedI32
  split_ifs with h
  · simpa using h
  · simpa using fun hlow ↦ not_lt.mp fun hhigh ↦ h ⟨hlow, hhigh⟩

theorem dateNaive_ne_panicked_iff {zone : Zone} {moment : Instant} :
    (dateNaive zone moment : Outcome ε Day) ≠ .panicked ↔ ShowsDate zone moment := by
  unfold dateNaive ShowsDate
  dsimp only
  split_ifs with h
  · simpa using h
  · simpa using fun hlow ↦ not_le.mp fun hhigh ↦ h ⟨hlow, hhigh⟩

/-- The year an amount leads to is found without an overflow. -/
theorem year_signed {year : ℤ} {n : ℕ} (back : Bool) (hn : n < 2 ^ 31) :
    (if back then year - asI32 n else year + asI32 n) = year + signed n back := by
  rw [asI32, if_pos hn]
  cases back
  · rfl
  · exact sub_eq_add_neg _ _

theorem shift_years_ne_panicked_iff {zone : Zone} {moment : Instant} {n : ℕ} {back : Bool}
    (hn : n < 2 ^ 31) :
    (shift zone moment n .years back : Outcome ε Instant) ≠ .panicked ↔
      ShiftLands zone moment n .years back := by
  unfold shift ShiftLands
  simp only [year_signed back hn, hn, true_and]
  by_cases htarget : -2 ^ 31 ≤ (zone.dateAt moment).year + signed n back ∧
      (zone.dateAt moment).year + signed n back < 2 ^ 31
  · rw [checkedI32, if_pos htarget, Outcome.bind_ok]
    cases hyear : withYear zone moment ((zone.dateAt moment).year + signed n back) with
    | some moved => simpa using htarget
    | none =>
      simp only [ne_eq, Outcome.bind_ok_eq_panicked_iff, htarget, true_and, forall_const]
      rw [sub_eq_add_neg]
      exact addDelta_ne_panicked_iff
  · rw [checkedI32, if_neg htarget, Outcome.bind_panicked]
    simp only [ne_eq, not_true_eq_false, false_iff]
    exact fun h ↦ htarget ⟨h.1, h.2.1⟩

theorem shift_lands_iff {zone : Zone} {moment : Instant} {n : ℕ} {unit : TimeUnit} {back : Bool} :
    ((shift zone moment n unit back : Outcome ε Instant) ≠ .panicked ∧ (unit = .years → n < 2 ^ 31)) ↔
      ShiftLands zone moment n unit back := by
  cases unit with
  | minutes | hours | days | weeks => simpa [shift, ShiftLands] using addDelta_ne_panicked_iff
  | months => simp [shift, ShiftLands]
  | years =>
    constructor
    · rintro ⟨hshift, hn⟩
      exact (shift_years_ne_panicked_iff (hn rfl)).mp hshift
    · intro hlands
      exact ⟨(shift_years_ne_panicked_iff hlands.1).mpr hlands, fun _ ↦ hlands.1⟩

/-! ### Round by round -/

/-- A round of `values_date` that neither panics nor wraps. -/
def DateLands (zone : Zone) (now : Instant) (field : Option Instant) : Value → Prop
  | .today => ShowsDate zone now
  | .time => ShowsDate zone now ∧ ShowsDate zone (field.getD now)
  | .plus n unit => ShiftLands zone (field.getD now) n unit false
  | .minus n unit => ShiftLands zone (field.getD now) n unit true
  | _ => True

def DateLeaves (zone : Zone) (now : Instant) (field : Option Instant) : Value → Prop
  | .plus n unit => ShiftLeaves zone (field.getD now) n unit false
  | .minus n unit => ShiftLeaves zone (field.getD now) n unit true
  | _ => False

/-- The values no date takes. -/
def NoDate : Value → Prop
  | .me | .text _ | .split => True
  | _ => False

/-- A round of `values_minutes` that does not panic. -/
def MinutesLand : Value → Prop
  | .plus n unit => n * minutesOf unit < 2 ^ 32
  | _ => True

/-- A round of `values_text` that neither panics nor wraps. -/
def TextLands (zone : Zone) (now : Instant) (typed : Typed) : Value → Prop
  | .plus n unit => ShiftLands zone (typed.when_.getD (now, .dateTime)).1 n unit false
  | .minus n unit => ShiftLands zone (typed.when_.getD (now, .dateTime)).1 n unit true
  | _ => True

def TextLeaves (zone : Zone) (now : Instant) (typed : Typed) : Value → Prop
  | .plus n unit => ShiftLeaves zone (typed.when_.getD (now, .dateTime)).1 n unit false
  | .minus n unit => ShiftLeaves zone (typed.when_.getD (now, .dateTime)).1 n unit true
  | _ => False

theorem wraps_plus_iff {n : ℕ} {unit : TimeUnit} :
    ¬ Wraps (.plus n unit) ↔ (unit = .years → n < 2 ^ 31) := by
  cases unit <;> simp [Wraps]

theorem wraps_minus_iff {n : ℕ} {unit : TimeUnit} :
    ¬ Wraps (.minus n unit) ↔ (unit = .years → n < 2 ^ 31) := by
  cases unit <;> simp [Wraps]

theorem dateStep_lands_iff {zone : Zone} {now : Instant} {field : Option Instant} {value : Value} :
    (dateStep zone now field value ≠ .panicked ∧ ¬ Wraps value) ↔ DateLands zone now field value := by
  cases value with
  | now | me | clear | text | split => simp [dateStep, Wraps, DateLands]
  | today =>
    simp only [dateStep, DateLands, Wraps, not_false_eq_true, and_true, ne_eq, Outcome.bind_ok_eq_panicked_iff]
    exact dateNaive_ne_panicked_iff
  | time =>
    simp only [dateStep, DateLands, Wraps, not_false_eq_true, and_true, ne_eq]
    by_cases hnow : ShowsDate zone now
    · have htoday : (dateNaive zone now : Outcome ValuesError Day) = .ok (zone.toLocal now / 86400) :=
        if_pos hnow
      rw [htoday, Outcome.bind_ok, Outcome.bind_ok_eq_panicked_iff]
      cases field with
      | none => simp [hnow]
      | some moment => simpa [hnow] using dateNaive_ne_panicked_iff
    · have htoday : (dateNaive zone now : Outcome ValuesError Day) = .panicked := if_neg hnow
      simp [htoday, hnow]
  | plus n unit =>
    simp only [dateStep, DateLands, wraps_plus_iff, ne_eq, Outcome.bind_ok_eq_panicked_iff]
    exact shift_lands_iff
  | minus n unit =>
    simp only [dateStep, DateLands, wraps_minus_iff, ne_eq, Outcome.bind_ok_eq_panicked_iff]
    exact shift_lands_iff

theorem addDelta_ne_err {moment : Instant} {seconds : ℤ} {error : ε} :
    addDelta moment seconds ≠ .err error := by
  unfold addDelta
  split <;> simp

theorem shift_ne_err {zone : Zone} {moment : Instant} {n : ℕ} {unit : TimeUnit} {back : Bool} {error : ε} :
    shift zone moment n unit back ≠ .err error := by
  cases unit with
  | minutes | hours | days | weeks => exact addDelta_ne_err
  | months => simp [shift]
  | years =>
    apply Outcome.bind_ne_err
    · unfold checkedI32
      split_ifs <;> simp
    · intro target
      split
      · simp
      · exact Outcome.bind_ne_err addDelta_ne_err (by simp)

theorem dateNaive_ne_err {zone : Zone} {moment : Instant} {error : ε} : dateNaive zone moment ≠ .err error := by
  unfold dateNaive
  dsimp only
  split_ifs <;> simp

theorem dateStep_eq_err_iff {zone : Zone} {now : Instant} {field : Option Instant} {value : Value} :
    (∃ error, dateStep zone now field value = .err error) ↔ NoDate value := by
  cases value with
  | now | clear | me | text | split => simp [dateStep, NoDate]
  | today =>
    simpa [dateStep, NoDate] using fun error ↦ Outcome.bind_ne_err dateNaive_ne_err (by simp)
  | time =>
    have hfield (today : Day) (error : ValuesError) :
        (match field with
          | some moment => dateNaive zone moment
          | none => .ok today : Outcome ValuesError Day) ≠ .err error := by
      cases field with
      | none => simp
      | some moment => exact dateNaive_ne_err
    simpa [dateStep, NoDate] using fun error ↦
      Outcome.bind_ne_err dateNaive_ne_err fun today ↦ Outcome.bind_ne_err (hfield today error) (by simp)
  | plus n unit | minus n unit =>
    simpa [dateStep, NoDate] using fun error ↦ Outcome.bind_ne_err shift_ne_err (by simp)

theorem minutesStep_lands_iff {so_far : Option ℕ} {value : Value} :
    minutesStep so_far value ≠ .panicked ↔ MinutesLand value := by
  cases value with
  | now | today | time | minus | me | clear | split => simp [minutesStep, MinutesLand]
  | text t => simp [minutesStep, MinutesLand, Outcome.bind_ok_eq_panicked_iff, Outcome.okOr_ne_panicked]
  | plus n unit =>
    simp only [minutesStep, MinutesLand, ne_eq, Outcome.bind_ok_eq_panicked_iff]
    unfold checkedU32
    split_ifs with h <;> simpa using h

theorem textStep_lands_iff {zone : Zone} {now : Instant} {username : Text} {typed : Typed} {value : Value} :
    (textStep zone now username typed value ≠ .panicked ∧ ¬ Wraps value) ↔
      TextLands zone now typed value := by
  cases value with
  | now | today | time | me | clear | text | split => simp [textStep, Wraps, TextLands]
  | plus n unit =>
    simp only [textStep, TextLands, wraps_plus_iff, ne_eq, Outcome.bind_ok_eq_panicked_iff]
    exact shift_lands_iff
  | minus n unit =>
    simp only [textStep, TextLands, wraps_minus_iff, ne_eq, Outcome.bind_ok_eq_panicked_iff]
    exact shift_lands_iff

theorem textStep_ne_err {zone : Zone} {now : Instant} {username : Text} {typed : Typed} {value : Value}
    {error : ValuesError} : textStep zone now username typed value ≠ .err error := by
  cases value with
  | now | today | time | me | clear | text | split => simp [textStep]
  | plus n unit | minus n unit => exact Outcome.bind_ne_err shift_ne_err (by simp)

/-! ### Whole lists -/

section Whole

variable {σ ρ : Type} {step : σ → Value → Outcome ε σ} {state : σ} {values : List Value}
  {lands leaves : σ → Value → Prop} {refused wraps : Value → Prop}

/-- Values fail softly when every round that is come to lands, and one is refused where one leaves the
calendar. -/
theorem failsSoftly_iff {answer : Outcome ε ρ}
    (hanswer : answer = .panicked ↔ Outcome.steps step state values = .panicked)
    (herror : (∃ error, answer = .err error) ↔ ∃ error, Outcome.steps step state values = .err error)
    (hlands : ∀ at_ value, (step at_ value ≠ .panicked ∧ ¬ wraps value) ↔ lands at_ value)
    (hrefused : ∀ at_ value, (∃ error, step at_ value = .err error) ↔ refused value) :
    FailsSoftly answer step state values wraps leaves ↔
      (∀ at_ value, Outcome.Reaches step state values at_ value → lands at_ value) ∧
        ((∃ at_ value, Outcome.Reaches step state values at_ value ∧ leaves at_ value) →
          ∃ value ∈ values, refused value) := by
  have hpanics : answer ≠ .panicked ↔
      ∀ at_ value, Outcome.Reaches step state values at_ value → step at_ value ≠ .panicked := by
    rw [ne_eq, hanswer, Outcome.steps_eq_iff (by simp)]
    push Not
    rfl
  constructor
  · rintro ⟨hreturns, hexact, hrefuses⟩
    have hcalm := hpanics.mp hreturns
    refine ⟨fun at_ value h ↦ (hlands at_ value).mp ⟨hcalm at_ value h, hexact at_ value h⟩, fun h ↦ ?_⟩
    exact (Outcome.exists_steps_eq_err_iff hrefused hcalm).mp (herror.mp (hrefuses h))
  · rintro ⟨hland, hrefuse⟩
    have hcalm (at_ : σ) (value : Value) (h : Outcome.Reaches step state values at_ value) :=
      ((hlands at_ value).mpr (hland at_ value h)).1
    refine ⟨hpanics.mpr hcalm, fun at_ value h ↦ ((hlands at_ value).mpr (hland at_ value h)).2, fun h ↦ ?_⟩
    exact herror.mpr ((Outcome.exists_steps_eq_err_iff hrefused hcalm).mpr (hrefuse h))

end Whole

/-- The values no reminder takes. -/
def NoMinutes : Value → Prop
  | .clear | .plus _ _ => False
  | .text t => parseUnsigned 32 (trim t) = none
  | _ => True

theorem minutesStep_eq_err_iff {so_far : Option ℕ} {value : Value} :
    (∃ error, minutesStep so_far value = .err error) ↔ NoMinutes value := by
  cases value with
  | now | today | time | minus | me | clear | split => simp [minutesStep, NoMinutes]
  | text t => cases h : parseUnsigned 32 (trim t) <;> simp [minutesStep, NoMinutes, h]
  | plus n unit =>
    simp only [minutesStep, NoMinutes, checkedU32]
    split_ifs <;> simp

/-- Which values fail softly. A date: where no offset come to panics or wraps, and one that leaves the calendar
is in vain because a value of the list is refused. A reminder: where no product is too large. A text, which
refuses nothing: where no offset panics, wraps or leaves the calendar. -/
theorem valuesFailSoftly_iff (zone : Zone) (now : Instant) (field : Option Instant) (username : Text)
    (values : List Value) :
    (FailsSoftly (valuesDate zone now field values) (dateStep zone now) field values Wraps (DateLeaves zone now) ↔
      (∀ at_ value, Outcome.Reaches (dateStep zone now) field values at_ value →
          DateLands zone now at_ value) ∧
        ((∃ at_ value, Outcome.Reaches (dateStep zone now) field values at_ value ∧
            DateLeaves zone now at_ value) → ∃ value ∈ values, NoDate value)) ∧
    (FailsSoftly (valuesMinutes values) minutesStep none values (fun _ ↦ False) (fun _ _ ↦ False) ↔
      ∀ at_ value, Outcome.Reaches minutesStep none values at_ value → MinutesLand value) ∧
    (FailsSoftly (valuesText zone now username values) (textStep zone now username) ⟨none, []⟩ values Wraps
        (TextLeaves zone now) ↔
      ∀ at_ value, Outcome.Reaches (textStep zone now username) ⟨none, []⟩ values at_ value →
        TextLands zone now at_ value ∧ ¬ TextLeaves zone now at_ value) := by
  refine ⟨?_, ?_, ?_⟩
  · exact failsSoftly_iff Iff.rfl Iff.rfl (fun _ _ ↦ dateStep_lands_iff) fun _ _ ↦ dateStep_eq_err_iff
  · have hlands (at_ : Option ℕ) (value : Value) :
        (minutesStep at_ value ≠ .panicked ∧ ¬ False) ↔ MinutesLand value := by
      simpa using minutesStep_lands_iff
    refine (failsSoftly_iff Iff.rfl Iff.rfl hlands fun _ _ ↦ minutesStep_eq_err_iff).trans ?_
    simp
  · have hnever (at_ : Typed) (value : Value) :
        (∃ error, textStep zone now username at_ value = .err error) ↔ False := by
      simpa using fun error ↦ textStep_ne_err
    have hsteps : (∃ error, Outcome.steps (textStep zone now username) ⟨none, []⟩ values = .err error) ↔
        ∃ error, valuesText zone now username values = .err error := by
      unfold valuesText
      cases Outcome.steps (textStep zone now username) ⟨none, []⟩ values <;> simp
    refine (failsSoftly_iff Outcome.bind_ok_eq_panicked_iff hsteps.symm (fun _ _ ↦ textStep_lands_iff)
      hnever).trans ?_
    simp only [and_false, exists_false, imp_false, not_exists, not_and]
    exact ⟨fun h at_ value hreach ↦ ⟨h.1 at_ value hreach, h.2 at_ value hreach⟩,
      fun h ↦ ⟨fun at_ value hreach ↦ (h at_ value hreach).1, fun at_ value hreach ↦ (h at_ value hreach).2⟩⟩

/-- A reminder of 4294967295 hours overflows, a due date 4294967295 weeks on leaves the calendar with a panic,
and one 300000 years on stays where it is without an error. -/
theorem values_do_not_fail_softly :
    valuesMinutes [.plus 4294967295 .hours] = .panicked ∧
      valuesDate Zone.utc 0 none [.plus 4294967295 .weeks] = .panicked ∧
      valuesDate Zone.utc 0 none [.plus 300000 .years] = .ok (some 0) ∧
      DateLeaves Zone.utc 0 none (.plus 300000 .years) ∧
      ¬ FailsSoftly (valuesDate Zone.utc 0 none [.plus 300000 .years]) (dateStep Zone.utc 0) none
        [.plus 300000 .years] Wraps (DateLeaves Zone.utc 0) := by
  have hyears : valuesDate Zone.utc 0 none [.plus 300000 .years] = .ok (some 0) := by decide +kernel
  have hleaves : DateLeaves Zone.utc 0 none (.plus 300000 .years) := by
    have hwall : Zone.utc.wallInYear 0 ((Zone.utc.dateAt 0).year + signed 300000 false) = none := by decide +kernel
    simp only [DateLeaves, ShiftLeaves, Option.getD_none, hwall]
    decide +kernel
  refine ⟨by decide +kernel, by decide +kernel, hyears, hleaves, fun hsafe ↦ ?_⟩
  obtain ⟨error, herror⟩ := hsafe.refuses ⟨none, _, .inl ⟨rfl, rfl⟩, hleaves⟩
  rw [hyears] at herror
  cases herror

end Taskologic.Client
