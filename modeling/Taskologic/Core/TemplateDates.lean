import Taskologic.Core.Calendar
import Taskologic.Core.Template

/-!
# Dates of a template

A template says how far ahead the start and the due date of its tasks are, and nothing compares the two when it is
saved. `TemplateOptions.DatesFit` is when the dates it gives are in order (`startsAfter_prefilled_iff`).
-/

set_option autoImplicit false
set_option relaxedAutoImplicit false

namespace Taskologic.Core

/-- The length of an offset in seconds. -/
def Offset.seconds (offset : Offset) : ℤ := offset.amount * offset.unit.inMinutes * 60

theorem Offset.after_eq_some_iff {offset : Offset} {anchor later : Instant} :
    offset.after anchor = some later ↔ inCalendar (anchor + offset.seconds) = true ∧ anchor + offset.seconds = later :=
  checkedAdd_eq_some_iff

namespace TemplateOptions

variable (options : TemplateOptions)

/-- The average that is trusted, if there is one. -/
def trustedAverage (history : Option (ℤ × ℕ)) : Option ℤ :=
  options.dueFromAverage.bind fun rule ↦ history.bind fun past ↦
    if rule.minSamples ≤ past.2 then some past.1 else none

theorem dueByAverage_eq (start : Instant) (history : Option (ℤ × ℕ)) :
    options.dueByAverage (some start) history = (options.trustedAverage history).bind (checkedAdd start) := by
  unfold dueByAverage trustedAverage
  cases options.dueFromAverage with
  | none => rfl
  | some rule =>
    cases history with
    | none => rfl
    | some past =>
      simp only [Option.bind_some]
      split_ifs <;> rfl

/-- The dates a template gives from a moment on are in order. Where a trusted average dates the task, it is not
negative; otherwise the start prefill is no longer than the due prefill. What the calendar does not reach is no
date. -/
structure DatesFit (anchor : Instant) (history : Option (ℤ × ℕ)) : Prop where
  average : ∀ start ∈ options.startPrefill, ∀ length, options.trustedAverage history = some length →
    inCalendar (anchor + start.seconds) = true → inCalendar (anchor + start.seconds + length) = true → 0 ≤ length
  prefills : ∀ start ∈ options.startPrefill, ∀ due ∈ options.duePrefill,
    inCalendar (anchor + start.seconds) = true → inCalendar (anchor + due.seconds) = true →
    (∀ length, options.trustedAverage history = some length →
      inCalendar (anchor + start.seconds + length) = false) → start.seconds ≤ due.seconds

variable {options}

theorem startsAfter_eq_false_iff {start due : Option Instant} :
    startsAfter start due = false ↔ ∀ s ∈ start, ∀ d ∈ due, s ≤ d := by
  cases start <;> cases due <;> simp [startsAfter]

/-- The dates of a task that is stamped out are in order exactly if those of its template fit. -/
theorem startsAfter_prefilled_iff {anchor : Instant} {history : Option (ℤ × ℕ)} :
    startsAfter (options.startFor anchor) (options.dueFor anchor (options.startFor anchor) history) = false ↔
      options.DatesFit anchor history := by
  rw [startsAfter_eq_false_iff]
  constructor
  · intro hdates
    have hstarts (start : Offset) (hstart : start ∈ options.startPrefill)
        (hthere : inCalendar (anchor + start.seconds) = true) :
        options.startFor anchor = some (anchor + start.seconds) := by
      rw [startFor, Option.mem_def.mp hstart]
      exact Offset.after_eq_some_iff.mpr ⟨hthere, rfl⟩
    constructor
    · intro start hstart length htrusted hthere hthere'
      have hfor := hstarts start hstart hthere
      rw [hfor] at hdates
      have hdue : options.dueFor anchor (some (anchor + start.seconds)) history =
          some (anchor + start.seconds + length) := by
        rw [dueFor, dueByAverage_eq, htrusted, Option.bind_some, checkedAdd_eq_some_iff.mpr ⟨hthere', rfl⟩]
        rfl
      have hle := hdates _ rfl _ hdue
      linarith
    · intro start hstart due hdue hthere hthere' huntrusted
      have hfor := hstarts start hstart hthere
      rw [hfor] at hdates
      have hnone : options.dueByAverage (some (anchor + start.seconds)) history = none := by
        rw [dueByAverage_eq]
        cases htrusted : options.trustedAverage history with
        | none => rfl
        | some length =>
          rw [Option.bind_some, Option.eq_none_iff_forall_ne_some]
          intro later hlater
          have hin := (checkedAdd_eq_some_iff.mp hlater).1
          rw [huntrusted length htrusted] at hin
          cases hin
      have hdueFor : options.dueFor anchor (some (anchor + start.seconds)) history = some (anchor + due.seconds) := by
        rw [dueFor, hnone, Option.none_or, Option.mem_def.mp hdue]
        exact Offset.after_eq_some_iff.mpr ⟨hthere', rfl⟩
      have hle := hdates _ rfl _ hdueFor
      linarith
  · intro hfit start hstart due hdue
    obtain ⟨prefill, hprefill, hafter⟩ := Option.bind_eq_some_iff.mp hstart
    obtain ⟨hthere, rfl⟩ := Offset.after_eq_some_iff.mp hafter
    rw [Option.mem_def.mp hstart, dueFor, dueByAverage_eq, Option.mem_def, Option.or_eq_some_iff] at hdue
    rcases hdue with hdue | ⟨hnone, hdue⟩
    · obtain ⟨length, htrusted, hlength⟩ := Option.bind_eq_some_iff.mp hdue
      obtain ⟨hthere', rfl⟩ := checkedAdd_eq_some_iff.mp hlength
      have hnonneg := hfit.average prefill hprefill length htrusted hthere hthere'
      linarith
    · obtain ⟨later, hlater, hafter'⟩ := Option.bind_eq_some_iff.mp hdue
      obtain ⟨hthere', rfl⟩ := Offset.after_eq_some_iff.mp hafter'
      have hle := hfit.prefills prefill hprefill later hlater hthere hthere' fun length htrusted ↦ ?_
      · linarith
      · rw [htrusted, Option.bind_some] at hnone
        by_contra hin
        rw [Bool.not_eq_false] at hin
        rw [checkedAdd_eq_some_iff.mpr ⟨hin, rfl⟩] at hnone
        cases hnone

end TemplateOptions

end Taskologic.Core
