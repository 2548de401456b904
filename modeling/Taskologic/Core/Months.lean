import Taskologic.Core.Calendar

/-!
# Months

What the days of the calendar are as dates: a day is on a date that exists (`civilOf_exists`), every date
that exists is the date of its day (`civilOf_dayOf`), and the days of a month follow one another, the first
of a month upon the last of the month before it (`civilOf_add`, `civilOf_month_before`).
-/

set_option autoImplicit false
set_option relaxedAutoImplicit false

namespace Taskologic.Core

/-! ### Years of an era -/

theorem daysBefore_le {earlier later : ℤ} (h : earlier ≤ later) : daysBefore earlier ≤ daysBefore later := by
  unfold daysBefore
  omega

/-- A year is a day longer if the February it ends in is that of a leap year. -/
theorem daysBefore_succ (year : ℤ) :
    daysBefore (year + 1) =
      daysBefore year + if isLeapYear (year + 1) = true ∧ (year + 1) % 400 ≠ 0 then 366 else 365 := by
  simp only [daysBefore, isLeapYear, Bool.and_eq_true, Bool.or_eq_true, beq_iff_eq, bne_iff_ne]
  split_ifs with h <;> omega

/-- A day of an era is before the next of its years; the last one goes on to the end of the era. -/
theorem dayOfEra_lt {day : ℤ} (hlow : 0 ≤ day) (hhigh : day < 146097) :
    day < daysBefore (yearOfEra day + 1) ∨ yearOfEra day = 399 := by
  obtain ⟨century, hcentury⟩ : ∃ century, min (day / 36524) 3 = century := ⟨_, rfl⟩
  obtain ⟨span, hspan⟩ : ∃ span, (day - century * 36524) / 1461 = span := ⟨_, rfl⟩
  obtain ⟨year, hyear⟩ : ∃ year, min ((day - century * 36524 - span * 1461) / 365) 3 = year := ⟨_, rfl⟩
  have hcenturies : 0 ≤ century ∧ century ≤ 3 := by omega
  have hspans : 0 ≤ span ∧ span ≤ 24 := by omega
  have hyears : 0 ≤ year ∧ year ≤ 3 := by omega
  have hera : yearOfEra day = century * 100 + span * 4 + year := by
    unfold yearOfEra
    have hleaps : day / 1460 = century * 25 + span + (day - century * 36500 - span * 1460) / 1460 := by omega
    have hcarry : day / 36524 - day / 146096 = century := by omega
    omega
  rw [hera, daysBefore]
  obtain hyear' | hyear' := lt_or_eq_of_le hyears.2
  · have hfour : (century * 100 + span * 4 + year + 1) / 4 = century * 25 + span := by omega
    have hhundred : (century * 100 + span * 4 + year + 1) / 100 = century := by omega
    rw [hfour, hhundred]
    omega
  · have hfour : (century * 100 + span * 4 + year + 1) / 4 = century * 25 + span + 1 := by omega
    rw [hfour]
    obtain hspan' | hspan' := lt_or_eq_of_le hspans.2
    · have hhundred : (century * 100 + span * 4 + year + 1) / 100 = century := by omega
      rw [hhundred]
      omega
    · have hhundred : (century * 100 + span * 4 + year + 1) / 100 = century + 1 := by omega
      rw [hhundred]
      omega

/-- The year of an era is the only one that a day of it can be in. -/
theorem yearOfEra_eq {day year : ℤ} (hday : 0 ≤ day) (hera : day < 146097) (hyear : year < 400)
    (hlow : daysBefore year ≤ day) (hhigh : day < daysBefore (year + 1) ∨ year = 399) :
    yearOfEra day = year := by
  obtain ⟨-, hyear', hlow', -⟩ := dayOfEra_bounds hday hera
  have hhigh' := dayOfEra_lt hday hera
  obtain hlt | heq | hgt := lt_trichotomy (yearOfEra day) year
  · have hle := daysBefore_le (Int.add_one_le_of_lt hlt)
    omega
  · exact heq
  · have hle := daysBefore_le (Int.add_one_le_of_lt hgt)
    omega

/-! ### Dates that exist -/

namespace CivilDate

/-- The calendar has such a date. -/
structure Exists (date : CivilDate) : Prop where
  month_pos : 1 ≤ date.month
  month_le : date.month ≤ 12
  day_pos : 1 ≤ date.day
  day_le : date.day ≤ lengthOfMonth date.year date.month

end CivilDate

theorem isLeapYear_add_era (year era : ℤ) : isLeapYear (year + era * 400) = isLeapYear year := by
  have hfour : (year + era * 400) % 4 = year % 4 := by omega
  have hhundred : (year + era * 400) % 100 = year % 100 := by omega
  have hera : (year + era * 400) % 400 = year % 400 := by omega
  simp only [isLeapYear, hfour, hhundred, hera]

/-- The months counted from March have the lengths of the months they are, and the last ends with the
year. -/
theorem day_le_lengthOfMonth {dayOfYear month year : ℤ} (hlow : 0 ≤ dayOfYear)
    (hhigh : dayOfYear < 365 ∨ dayOfYear = 365 ∧ isLeapYear (year + 1) = true)
    (hmonth : month = (5 * dayOfYear + 2) / 153) :
    dayOfYear - (153 * month + 2) / 5 + 1 ≤
      lengthOfMonth (year + if (if month < 10 then month + 3 else month - 9) ≤ 2 then 1 else 0)
        (if month < 10 then month + 3 else month - 9) := by
  have hmonths : 0 ≤ month ∧ month < 12 := by omega
  obtain heleven | hearlier := eq_or_ne month 11
  · subst heleven
    obtain hshort | ⟨hlong, hleap⟩ := hhigh
    · simp only [lengthOfMonth]
      split_ifs <;> omega
    · simp only [lengthOfMonth]
      norm_num [hleap]
      omega
  · unfold lengthOfMonth
    split_ifs <;> omega

/-- The date of a day, by the year of the era it is in and the day of that year. -/
theorem civilOf_eq {day years dayOfYear month : ℤ} (hyears : yearOfEra ((day + 719468) % 146097) = years)
    (hdayOfYear : (day + 719468) % 146097 - daysBefore years = dayOfYear)
    (hmonth : month = (5 * dayOfYear + 2) / 153) :
    civilOf day =
      ⟨years + (day + 719468) / 146097 * 400 + (if (if month < 10 then month + 3 else month - 9) ≤ 2 then 1 else 0),
        if month < 10 then month + 3 else month - 9, dayOfYear - (153 * month + 2) / 5 + 1⟩ := by
  rw [hmonth, ← hdayOfYear, ← hyears]
  unfold civilOf Day.civil yearOfEra daysBefore
  dsimp only
  rw [mul_comm 365]

/-- A day is on a date that exists. -/
theorem civilOf_exists (day : ℤ) : (civilOf day).Exists := by
  have hlow : 0 ≤ (day + 719468) % 146097 := Int.emod_nonneg _ (by decide)
  have hhigh : (day + 719468) % 146097 < 146097 := Int.emod_lt_of_pos _ (by decide)
  obtain ⟨hyear, hyear', hday, hday'⟩ := dayOfEra_bounds hlow hhigh
  have hend := dayOfEra_lt hlow hhigh
  obtain ⟨years, hyears⟩ : ∃ years, yearOfEra ((day + 719468) % 146097) = years := ⟨_, rfl⟩
  obtain ⟨dayOfYear, hdayOfYear⟩ :
    ∃ dayOfYear, (day + 719468) % 146097 - daysBefore years = dayOfYear := ⟨_, rfl⟩
  obtain ⟨month, hmonth⟩ : ∃ month, month = (5 * dayOfYear + 2) / 153 := ⟨_, rfl⟩
  rw [hyears] at hyear hyear' hday hday' hend
  rw [hdayOfYear] at hday hday'
  have hmonths : 0 ≤ month ∧ month < 12 := by omega
  have hlength : dayOfYear < 365 ∨
      dayOfYear = 365 ∧ isLeapYear (years + (day + 719468) / 146097 * 400 + 1) = true := by
    rw [add_right_comm, isLeapYear_add_era]
    have hsucc := daysBefore_succ years
    obtain hbefore | hlast := hend
    · split_ifs at hsucc with hfeb
      · by_cases hdays : dayOfYear = 365
        · exact .inr ⟨hdays, hfeb.1⟩
        · omega
      · omega
    · have hera : daysBefore 399 = 145731 := by decide
      subst hlast
      by_cases hdays : dayOfYear = 365
      · exact .inr ⟨hdays, by decide⟩
      · omega
  rw [civilOf_eq hyears hdayOfYear hmonth]
  constructor
  · dsimp only
    omega
  · dsimp only
    omega
  · dsimp only
    omega
  · exact day_le_lengthOfMonth (by omega) hlength hmonth

/-- A date that exists is that of its day. -/
theorem civilOf_dayOf {date : CivilDate} (h : date.Exists) : civilOf (dayOf date) = date := by
  obtain ⟨year, month, day⟩ := date
  obtain ⟨hmonth, hmonth', hday, hday'⟩ := h
  dsimp only at hmonth hmonth' hday hday'
  obtain ⟨years, hyears⟩ : ∃ years, (if month ≤ 2 then year - 1 else year) = years := ⟨_, rfl⟩
  obtain ⟨months, hmonths⟩ : ∃ months, (if month ≤ 2 then month + 9 else month - 3) = months := ⟨_, rfl⟩
  obtain ⟨dayOfYear, hdayOfYear⟩ : ∃ dayOfYear, (153 * months + 2) / 5 + day - 1 = dayOfYear := ⟨_, rfl⟩
  have hlength : dayOfYear < 365 ∨ dayOfYear = 365 ∧ isLeapYear (years + 1) = true := by
    unfold lengthOfMonth at hday'
    split_ifs at hday' hmonths hyears with hfebruary hleap <;> try omega
    by_cases hdays : dayOfYear = 365
    · exact .inr ⟨hdays, by rw [← hyears, sub_add_cancel]; exact hleap⟩
    · omega
  have hmarch : months = (5 * dayOfYear + 2) / 153 ∧ 0 ≤ dayOfYear := by
    have hbounds : 0 ≤ months ∧ months < 12 := by omega
    unfold lengthOfMonth at hday'
    obtain ⟨hlow, hhigh⟩ := hbounds
    interval_cases months <;> split_ifs at hday' hmonths <;> omega
  have hfirst : 0 ≤ daysBefore (years % 400) := daysBefore_le (Int.emod_nonneg years (by decide))
  have hlast : daysBefore (years % 400) ≤ 145731 := daysBefore_le (by omega : years % 400 ≤ 399)
  have hfound (found : ℤ) (hday : found + 719468 =
      years / 400 * 146097 + (daysBefore (years % 400) + dayOfYear)) : civilOf found = ⟨year, month, day⟩ := by
    have hera : (found + 719468) / 146097 = years / 400 := by omega
    have hrest : (found + 719468) % 146097 = daysBefore (years % 400) + dayOfYear := by omega
    have hyear : yearOfEra ((found + 719468) % 146097) = years % 400 := by
      rw [hrest]
      refine yearOfEra_eq (by omega) (by omega) (by omega) (by omega) ?_
      have hsucc := daysBefore_succ (years % 400)
      have hleap : isLeapYear (years % 400 + 1) = isLeapYear (years + 1) := by
        rw [← isLeapYear_add_era _ (years / 400)]
        congr 1
        omega
      rw [hleap] at hsucc
      obtain hshort | ⟨hlong, hleap'⟩ := hlength
      · split_ifs at hsucc <;> omega
      · simp only [hleap', true_and] at hsucc
        split_ifs at hsucc <;> omega
    rw [civilOf_eq hyear (by omega) hmarch.1, hera]
    subst hyears hmonths
    congr 1
    · split_ifs <;> omega
    · split_ifs <;> omega
    · omega
  refine hfound _ ?_
  unfold dayOf
  dsimp only
  rw [hyears, hmonths, ← hdayOfYear]
  ring

/-! ### The days of a month -/

/-- A day of the same month is that many days away. -/
theorem civilOf_add {day shift : ℤ} (hlow : 1 ≤ (civilOf day).day + shift)
    (hhigh : (civilOf day).day + shift ≤ lengthOfMonth (civilOf day).year (civilOf day).month) :
    civilOf (day + shift) = ⟨(civilOf day).year, (civilOf day).month, (civilOf day).day + shift⟩ := by
  have hexists := civilOf_exists day
  have hdate : (⟨(civilOf day).year, (civilOf day).month, (civilOf day).day + shift⟩ : CivilDate).Exists :=
    ⟨hexists.month_pos, hexists.month_le, hlow, hhigh⟩
  rw [← civilOf_dayOf hdate]
  congr 1
  have hday := dayOf_civilOf day
  unfold dayOf at hday ⊢
  dsimp only at hday ⊢
  linarith

/-- The last day of the month before that of a date. -/
def lastOfMonthBefore (date : CivilDate) : CivilDate :=
  if date.month = 1 then ⟨date.year - 1, 12, 31⟩
  else ⟨date.year, date.month - 1, lengthOfMonth date.year (date.month - 1)⟩

theorem lastOfMonthBefore_exists {date : CivilDate} (h : date.Exists) : (lastOfMonthBefore date).Exists := by
  obtain ⟨hmonth, hmonth', -, -⟩ := h
  unfold lastOfMonthBefore
  split_ifs with hjanuary
  · exact ⟨by simp, by simp, by simp, by simp [lengthOfMonth]⟩
  · refine ⟨by dsimp only; omega, by dsimp only; omega, ?_, le_refl _⟩
    dsimp only [lengthOfMonth]
    split_ifs <;> decide

/-- March follows upon the last day of February. -/
theorem dayOf_february (year : ℤ) :
    dayOf ⟨year, 2, lengthOfMonth year 2⟩ = dayOf ⟨year, 3, 0⟩ := by
  have hsucc := daysBefore_succ ((year - 1) % 400)
  have hleap : isLeapYear ((year - 1) % 400 + 1) = isLeapYear year := by
    rw [← isLeapYear_add_era _ ((year - 1) / 400)]
    congr 1
    omega
  rw [hleap] at hsucc
  have hera : daysBefore 399 = 145731 := by decide
  have hfirst : daysBefore 0 = 0 := by decide
  simp only [dayOf, lengthOfMonth]
  norm_num
  show @Eq ℤ _ _
  obtain hlast | hbefore := eq_or_ne ((year - 1) % 400) 399
  · have hyear : year % 400 = 0 := by omega
    have hleap' : isLeapYear year = true := by simp [isLeapYear, hyear]; omega
    rw [hyear, hlast, hera, hfirst, if_pos hleap']
    omega
  · have hyear : (year - 1) % 400 + 1 = year % 400 := by omega
    rw [hyear] at hsucc
    have hera' : year % 400 ≠ 0 := by omega
    have hyear' : (year - 1) / 400 = year / 400 := by omega
    rw [hsucc, hyear']
    simp only [Int.emod_emod_of_dvd year (dvd_refl 400), hera', ne_eq, not_false_eq_true, and_true]
    split_ifs <;> omega

/-- The days of a month follow upon the last of the month before. -/
theorem dayOf_lastOfMonthBefore {date : CivilDate} (h : date.Exists) :
    dayOf (lastOfMonthBefore date) = dayOf date - date.day := by
  obtain ⟨year, month, day⟩ := date
  obtain ⟨hmonth, hmonth', -, -⟩ := h
  dsimp only at hmonth hmonth'
  obtain hmarch | hother := eq_or_ne month 3
  · subst hmarch
    have hfebruary := dayOf_february year
    have hshift : dayOf ⟨year, 3, day⟩ = dayOf ⟨year, 3, 0⟩ + day := by
      simp only [dayOf]
      ring
    simp only [lastOfMonthBefore]
    norm_num
    linarith
  · unfold lastOfMonthBefore dayOf lengthOfMonth
    show @Eq ℤ _ _
    interval_cases month <;> first | exact (hother rfl).elim | (norm_num; omega)

/-- The day before the first of a month is the last of the month before it. -/
theorem civilOf_month_before (day : ℤ) :
    civilOf (day - (civilOf day).day) = lastOfMonthBefore (civilOf day) := by
  have hexists := civilOf_exists day
  have hlast := dayOf_lastOfMonthBefore hexists
  rw [dayOf_civilOf] at hlast
  rw [← hlast, civilOf_dayOf (lastOfMonthBefore_exists hexists)]

end Taskologic.Core
