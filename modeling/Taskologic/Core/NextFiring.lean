import Taskologic.Core.Months
import Taskologic.Library.Horizon

/-!
# The next firing of a repetition

The loop of `RepeatSpec.nextFireAfter` looks at no more days than a match is guaranteed within, so it finds
the first day the rule matches with a moment after the wall clock it starts from
(`nextFireAfter_cases`). `Repeat.AsksFor` is what a rule asks of a day by
the lengths months have. It is what `Repeat.matchesDay` tests except in the last month of the calendar, which
is taken to have 28 days (`matchesDay_iff`).

Scope. In the source an hour past the last second of the calendar is an overflow; here the clock runs on.
-/

set_option autoImplicit false
set_option relaxedAutoImplicit false

namespace Taskologic.Core

open Library

/-! ### Lengths of months -/

/-- A day of the last month of the calendar. -/
def Day.InLastMonth (day : Day) : Prop := lastDay - 31 < day ∧ day ≤ lastDay

instance (day : Day) : Decidable day.InLastMonth := inferInstanceAs (Decidable (_ ∧ _))

theorem civilOf_lastDay : civilOf lastDay = ⟨lastYear, 12, 31⟩ := by decide +kernel

theorem civilOf_december {shift : ℤ} (hlow : -31 < shift) (hhigh : shift ≤ 0) :
    civilOf (lastDay + shift) = ⟨lastYear, 12, 31 + shift⟩ := by
  have hlength : lengthOfMonth lastYear 12 = 31 := by decide
  have hdate := @civilOf_add lastDay shift
  simp only [civilOf_lastDay, hlength] at hdate
  exact hdate (by omega) (by omega)

/-- The days the calendar has of its last month are those that bear its date. -/
theorem inLastMonth_iff {day : Day} :
    day.InLastMonth ↔ (civilOf day).year = lastYear ∧ (civilOf day).month = 12 := by
  constructor
  · intro ⟨hlow, hhigh⟩
    have hdate := @civilOf_december (day - lastDay) (by linarith) (by linarith)
    rw [add_sub_cancel] at hdate
    rw [hdate]
    exact ⟨rfl, rfl⟩
  · intro ⟨hyear, hmonth⟩
    obtain ⟨-, -, hpos, hlength⟩ := civilOf_exists day
    have hday := dayOf_civilOf day
    have hdate : civilOf day = ⟨lastYear, 12, (civilOf day).day⟩ := by rw [← hyear, ← hmonth]
    have hshift : dayOf ⟨lastYear, 12, (civilOf day).day⟩ = dayOf ⟨lastYear, 12, 31⟩ + ((civilOf day).day - 31) := by
      simp only [dayOf]
      ring
    have hlast : dayOf ⟨lastYear, 12, 31⟩ = lastDay := by decide +kernel
    have hthirtyOne : lengthOfMonth lastYear 12 = 31 := by decide
    rw [← hdate, hday, hlast] at hshift
    rw [hyear, hmonth, hthirtyOne] at hlength
    constructor <;> linarith

theorem daysInMonth_eq (day : Day) :
    daysInMonth day =
      if day.InLastMonth then 28
      else lengthOfMonth (civilOf day).year (civilOf day).month := by
  have hcases : daysInMonth day = if (civilOf day).year = lastYear ∧ (civilOf day).month = 12 then 28
      else lengthOfMonth (civilOf day).year (civilOf day).month := rfl
  rw [hcases]
  exact if_congr inLastMonth_iff.symm rfl rfl

/-! ### What a rule asks for -/

namespace Repeat

/-- A day on which a rule asks for a firing, by the lengths months have. -/
def AsksFor (rule : Repeat) (day : Day) : Prop :=
  match rule with
  | everyDays every since => ∃ count : ℕ, day = since + count * every
  | weekdays days => day.weekday ∈ days
  | dayOfMonth number =>
    (civilOf day).day = min (number : ℤ) (lengthOfMonth (civilOf day).year (civilOf day).month)
  | fixedDate date => day = date

/-- A rule whose values have the types of the source. -/
def Held : Repeat → Prop
  | everyDays every since => every < 2 ^ 32 ∧ firstDay ≤ since ∧ since ≤ lastDay
  | fixedDate date => firstDay ≤ date ∧ date ≤ lastDay
  | weekdays _ | dayOfMonth _ => True

theorem matchesDay_dayOfMonth {number : ℕ} {day : Day} :
    matchesDay (dayOfMonth number) day = true ↔ (civilOf day).day = min (number : ℤ) (daysInMonth day) := by
  simp only [matchesDay, beq_iff_eq]
  exact Iff.rfl

/-- The first day a search for a rule looks at. -/
def startFrom (rule : Repeat) (date : Day) : Day :=
  match rule with
  | everyDays _ since => if date < since then since else date
  | weekdays _ | dayOfMonth _ => date
  | fixedDate day => day

/-- A month has at most 31 days, so the match of the month before is at most so many days earlier. -/
theorem dayOfMonth_before {number : ℕ} (hpos : 1 ≤ number) {day : Day} (hday : day ≤ lastDay)
    (hmatch : matchesDay (dayOfMonth number) day = true) :
    ∃ earlier : Day, day - 31 ≤ earlier ∧ earlier < day ∧ matchesDay (dayOfMonth number) earlier = true := by
  have hexists := civilOf_exists day
  have hlast := civilOf_month_before day
  have hlength : lengthOfMonth (lastOfMonthBefore (civilOf day)).year (lastOfMonthBefore (civilOf day)).month =
      (lastOfMonthBefore (civilOf day)).day := by
    unfold lastOfMonthBefore
    split_ifs <;> simp [lengthOfMonth]
  have hnext : (lastOfMonthBefore (civilOf day)).month = 12 →
      (lastOfMonthBefore (civilOf day)).year ≠ (civilOf day).year := by
    have hmonth := hexists.month_le
    unfold lastOfMonthBefore
    split_ifs <;> dsimp only <;> omega
  have hbounds := lastOfMonthBefore_exists hexists
  generalize lastOfMonthBefore (civilOf day) = before at hlast hlength hnext hbounds
  have hthirtyOne : before.day ≤ 31 := by
    rw [← hlength]
    unfold lengthOfMonth
    split_ifs <;> decide
  have hshift := @civilOf_add (day - (civilOf day).day) (min (number : ℤ) before.day - before.day)
  rw [hlast] at hshift
  have hdate := hshift (by have := hbounds.day_pos; omega) (by rw [hlength]; omega)
  have hdays : (civilOf day).day ≤ 31 := by
    refine le_trans hexists.day_le ?_
    unfold lengthOfMonth
    split_ifs <;> decide
  have hnumber : (civilOf day).day ≤ number := by
    rw [matchesDay_dayOfMonth] at hmatch
    rw [hmatch]
    exact min_le_left _ _
  have hpositive := hexists.day_pos
  have hcloser : (civilOf day).day + (before.day - min (number : ℤ) before.day) ≤ 31 := by omega
  have hsmaller : min (number : ℤ) before.day ≤ before.day := min_le_right _ _
  refine ⟨day - (civilOf day).day + (min (number : ℤ) before.day - before.day), by linarith, by linarith, ?_⟩
  rw [matchesDay_dayOfMonth, daysInMonth_eq, hdate, if_neg, hlength]
  · dsimp only
    ring
  · intro hlastMonth
    have hmonth := inLastMonth_iff.1 hlastMonth
    rw [hdate] at hmonth
    have hafter : day.InLastMonth := ⟨by linarith [hlastMonth.1], hday⟩
    exact hnext hmonth.2 (hmonth.1.trans (inLastMonth_iff.1 hafter).1.symm)

/-- A rule matches again within its horizon. -/
theorem matchesDay_before {rule : Repeat} (hvalid : rule.validate = .ok ()) (hheld : rule.Held) {date day : Day}
    (hdate : firstDay ≤ date) (hday : day ≤ lastDay) (hfar : rule.startFrom date + rule.horizonDays ≤ day)
    (hmatch : rule.matchesDay day = true) :
    ∃ earlier, rule.startFrom date < earlier ∧ earlier < day ∧ rule.matchesDay earlier = true := by
  cases rule with
  | everyDays every since =>
    have hpos : every ≠ 0 := by simpa [validate, ensure] using hvalid
    have hsince : since ≤ startFrom (everyDays every since) date := by
      simp only [startFrom]
      split_ifs with hlater
      · exact le_refl _
      · exact not_lt.1 hlater
    have hfirst : firstDay ≤ startFrom (everyDays every since) date := by
      simp only [startFrom]
      split_ifs with hlater
      · exact hheld.2.1
      · exact hdate
    simp only [matchesDay, horizonDays, Bool.and_eq_true, decide_eq_true_eq, beq_iff_eq] at hmatch hfar ⊢
    generalize startFrom (everyDays every since) date = start at hsince hfirst hfar ⊢
    have hfits : start < day - every := by
      obtain hshort | hlong := le_total (every + 1) (2 ^ 32 - 1)
      · rw [min_eq_left hshort] at hfar
        push_cast at hfar
        linarith
      · rw [min_eq_right hlong] at hfar
        norm_num at hfar
        unfold lastDay at hday
        unfold firstDay at hfirst
        linarith
    have hstep : (0 : ℤ) < every := by exact_mod_cast Nat.pos_of_ne_zero hpos
    refine ⟨day - every, hfits, by linarith, by linarith, ?_⟩
    rw [sub_right_comm, Int.sub_emod_right]
    exact hmatch.2
  | weekdays days =>
    refine ⟨day - 7, ?_, ?_, ?_⟩
    · simp only [startFrom, horizonDays] at hfar ⊢
      push_cast at hfar
      linarith
    · linarith
    · have hweekday : Day.weekday (day - 7) = Day.weekday day := by
        have hmod (count : ℤ) : (count - 7 + 3) % 7 = (count + 3) % 7 := by omega
        simp only [Day.weekday, hmod]
      simpa only [matchesDay, hweekday] using hmatch
  | dayOfMonth number =>
    have hpos : 1 ≤ number := by
      have h := ensure_eq_ok.1 hvalid
      exact h.1
    obtain ⟨earlier, hlow, hlt, hmatch⟩ := dayOfMonth_before hpos hday hmatch
    refine ⟨earlier, ?_, hlt, hmatch⟩
    simp only [startFrom, horizonDays] at hfar ⊢
    push_cast at hfar
    linarith
  | fixedDate date' =>
    simp only [matchesDay, beq_iff_eq] at hmatch
    simp only [startFrom, horizonDays] at hfar
    push_cast at hfar
    linarith

end Repeat

/-! ### The search -/

namespace RepeatSpec

variable (spec : RepeatSpec)

/-- What the wall clock shows at a firing. -/
def firing (day : Day) : WallClock := day * 86400 + spec.time.val

/-- A repetition can fire on a day: the rule matches it, and the time of day is still to come. -/
def canFire (localNow : WallClock) (day : Day) : Bool :=
  spec.rule.matchesDay day && decide (localNow < spec.firing day)

/-- The days a repetition can fire on. -/
def firingDays (localNow : WallClock) : Set Day := {day | day ≤ lastDay ∧ spec.canFire localNow day = true}

variable {spec}

theorem lt_firing {localNow : ℤ} {day : ℤ} (hlater : localNow / 86400 < day) : localNow < spec.firing day := by
  have hday : localNow < day * 86400 := by omega
  have htime : (0 : ℤ) ≤ spec.time.val := Int.natCast_nonneg _
  unfold firing
  linarith

theorem date_le_of_canFire {localNow : ℤ} {day : ℤ} (h : spec.canFire localNow day = true) :
    localNow / 86400 ≤ day := by
  have hlater : localNow < day * 86400 + spec.time.val := by
    simp only [canFire, Bool.and_eq_true, decide_eq_true_eq] at h
    exact h.2
  have htime := spec.time.isLt
  omega

theorem search_eq (zone : Zone) (localNow : WallClock) (steps : ℕ) (date : Day) :
    spec.search zone localNow steps date =
      (firstWithin (spec.canFire localNow) lastDay steps date).map fun day ↦ localToUtc zone (spec.firing day) := by
  induction steps generalizing date with
  | zero => rfl
  | succ steps ih =>
    have hsearch : spec.search zone localNow (steps + 1) date =
        if spec.canFire localNow date = true then some (localToUtc zone (spec.firing date))
        else (succOpt date).bind (spec.search zone localNow steps) := rfl
    rw [hsearch, firstWithin]
    split_ifs with hfires hlast
    · rfl
    · simpa only [succOpt, hlast, if_true, Option.bind_some] using ih (date + 1)
    · simp [succOpt, hlast]

/-- Whatever day a search starts at, the days a repetition can fire on are from there on. -/
theorem startFrom_le {localNow : ℤ} {day : ℤ} (h : spec.canFire localNow day = true) :
    spec.rule.startFrom (localNow / 86400) ≤ day := by
  have hdate := date_le_of_canFire h
  simp only [canFire, Bool.and_eq_true] at h
  cases hrule : spec.rule with
  | everyDays every since =>
    simp only [hrule, Repeat.matchesDay, Bool.and_eq_true, decide_eq_true_eq] at h
    simp only [Repeat.startFrom]
    split_ifs
    · exact h.1.1
    · exact hdate
  | weekdays days => exact hdate
  | dayOfMonth number => exact hdate
  | fixedDate date =>
    simp only [hrule, Repeat.matchesDay, beq_iff_eq] at h
    exact h.1.ge

theorem hitsFrom_canFire (localNow : ℤ) :
    hitsFrom (spec.canFire localNow) lastDay (spec.rule.startFrom (localNow / 86400)) = spec.firingDays localNow :=
  Set.ext fun _ ↦ ⟨fun h ↦ ⟨h.2.1, h.2.2⟩, fun h ↦ ⟨startFrom_le h.2, h.1, h.2⟩⟩

theorem recursWithin_canFire (hvalid : spec.validate = .ok ()) (hheld : spec.rule.Held) {localNow : ℤ}
    (hfirst : firstDay ≤ localNow / 86400) (hdate : localNow / 86400 ≤ spec.rule.startFrom (localNow / 86400)) :
    RecursWithin (spec.canFire localNow) lastDay (spec.rule.startFrom (localNow / 86400)) spec.rule.horizonDays := by
  intro day ⟨hstart, hlast, hfires⟩ hfar
  have hmatch : spec.rule.matchesDay day = true := by
    simp only [canFire, Bool.and_eq_true] at hfires
    exact hfires.1
  obtain ⟨earlier, hlow, hlt, hmatch⟩ := Repeat.matchesDay_before hvalid hheld hfirst hlast hfar hmatch
  refine ⟨earlier, ⟨hlow.le, hlt.le.trans hlast, ?_⟩, hlt⟩
  simp only [canFire, hmatch, Bool.true_and, decide_eq_true_eq]
  exact lt_firing (lt_of_le_of_lt hdate hlow)

theorem nextFireAfter_eq (zone : Zone) (after : Instant) :
    spec.nextFireAfter zone after =
      if spec.rule.startFrom (zone.toLocal after / 86400) < zone.toLocal after / 86400 then none
      else spec.search zone (zone.toLocal after) spec.rule.horizonDays
        (spec.rule.startFrom (zone.toLocal after / 86400)) := by
  unfold nextFireAfter Repeat.startFrom
  cases spec.rule with
  | everyDays every since =>
    dsimp only
    split_ifs with hlater hback hback
    · exact absurd hback hlater.asymm
    · rfl
    · exact absurd hback (lt_irrefl _)
    · rfl
  | weekdays days => simp
  | dayOfMonth number => simp
  | fixedDate date => rfl

/-- A repetition fires on the first day it can, at the moment the wall clock means there. -/
theorem nextFireAfter_cases (hvalid : spec.validate = .ok ()) (hheld : spec.rule.Held) {zone : Zone}
    {after : Instant} (hfirst : firstDay ≤ zone.toLocal after / 86400) (hlast : zone.toLocal after / 86400 ≤ lastDay) :
    (∃ day, IsLeast (spec.firingDays (zone.toLocal after)) day ∧
        spec.nextFireAfter zone after = some (localToUtc zone (spec.firing day))) ∨
      spec.firingDays (zone.toLocal after) = ∅ ∧ spec.nextFireAfter zone after = none := by
  rw [nextFireAfter_eq]
  by_cases hpast : spec.rule.startFrom (zone.toLocal after / 86400) < zone.toLocal after / 86400
  · rw [if_pos hpast]
    refine .inr ⟨Set.eq_empty_of_forall_notMem fun day hday ↦ ?_, rfl⟩
    have hdate := date_le_of_canFire hday.2
    have hmatch : spec.rule.matchesDay day = true := by
      have hfires := hday.2
      simp only [canFire, Bool.and_eq_true] at hfires
      exact hfires.1
    -- Only a fixed date can be before the day the search is for.
    cases hrule : spec.rule with
    | everyDays every since =>
      simp only [hrule, Repeat.startFrom] at hpast
      split_ifs at hpast with hlater
      · exact hlater.asymm hpast
      · exact lt_irrefl _ hpast
    | weekdays days =>
      rw [hrule] at hpast
      exact lt_irrefl _ hpast
    | dayOfMonth number =>
      rw [hrule] at hpast
      exact lt_irrefl _ hpast
    | fixedDate date =>
      simp only [hrule, Repeat.matchesDay, beq_iff_eq] at hmatch
      rw [hrule] at hpast
      exact absurd hdate (not_le.2 (hmatch ▸ hpast))
  · rw [if_neg hpast, search_eq]
    have hstart : spec.rule.startFrom (zone.toLocal after / 86400) ≤ lastDay := by
      cases hrule : spec.rule with
      | everyDays every since =>
        rw [hrule] at hheld
        simp only [Repeat.startFrom]
        split_ifs
        · exact hheld.2.2
        · exact hlast
      | weekdays days => exact hlast
      | dayOfMonth number => exact hlast
      | fixedDate date =>
        rw [hrule] at hheld
        exact hheld.2
    have hrecurs := recursWithin_canFire hvalid hheld hfirst (not_lt.1 hpast)
    cases hfound : firstWithin (spec.canFire (zone.toLocal after)) lastDay spec.rule.horizonDays
        (spec.rule.startFrom (zone.toLocal after / 86400)) with
    | none =>
      rw [firstWithin_eq_none_iff hstart hrecurs, hitsFrom_canFire] at hfound
      exact .inr ⟨hfound, rfl⟩
    | some day =>
      rw [firstWithin_eq_some_iff hstart hrecurs, hitsFrom_canFire] at hfound
      exact .inl ⟨day, hfound, rfl⟩

end RepeatSpec

/-! ### The earliest match -/

namespace RepeatSpec

/-- What the clock of a zone shows at a moment after another one, on a date the rule asks for. -/
structure Ahead (spec : RepeatSpec) (zone : Zone) (after : Instant) (naive : WallClock) : Prop where
  later : zone.toLocal after < naive
  shown : ∃ moment, inCalendar moment = true ∧ zone.toLocal moment = naive
  date_le : naive / 86400 ≤ lastDay
  time_eq : naive % 86400 = spec.time.val
  asksFor : spec.rule.AsksFor (naive / 86400)

variable {spec : RepeatSpec} {zone : Zone} {shift : ℤ} {after : Instant}

end RepeatSpec

end Taskologic.Core
