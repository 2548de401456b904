import Mathlib.Data.List.Basic

/-!
# Courses of labelled steps

A course goes from one state to another by steps that carry a label. It remembers every state it comes through with
the label of the step taken there, the latest first. When a step from a state with a property leads to another one with
it exactly if a condition on the state and the label is met, then a course stays within the property exactly if every
step of it meets the condition (`Course.forall_iff`).
-/

set_option autoImplicit false
set_option relaxedAutoImplicit false

namespace Taskologic.Library

variable {σ ι : Type*} {step : ι → σ → σ → Prop} {start s : σ} {past : List (σ × ι)}

/-- What a course has come through, and where it has got to. -/
inductive Course (step : ι → σ → σ → Prop) (start : σ) : List (σ × ι) → σ → Prop where
  | start : Course step start [] start
  | next {past : List (σ × ι)} {s s' : σ} {label : ι} (before : Course step start past s) (h : step label s s') :
      Course step start ((s, label) :: past) s'

namespace Course

/-- A property that a step keeps exactly if it meets a condition holds all along a course exactly if all its steps
meet the condition. -/
theorem forall_iff {P : σ → Prop} {C : σ → ι → Prop} (h : Course step start past s) (hstart : P start)
    (hstep : ∀ label s s', step label s s' → P s → (P s' ↔ C s label)) :
    ((∀ entry ∈ past, P entry.1) ∧ P s) ↔ ∀ entry ∈ past, C entry.1 entry.2 := by
  induction h with
  | start => simp [hstart]
  | @next past s s' label _ hlast ih =>
    rw [List.forall_mem_cons, List.forall_mem_cons]
    constructor
    · rintro ⟨⟨hs, hpast⟩, hs'⟩
      exact ⟨(hstep label s s' hlast hs).mp hs', ih.mp ⟨hpast, hs⟩⟩
    · rintro ⟨hlabel, hpast⟩
      obtain ⟨hbefore, hs⟩ := ih.mpr hpast
      exact ⟨⟨hs, hbefore⟩, (hstep label s s' hlast hs).mpr hlabel⟩

/-- One course after another. -/
theorem append {later : List (σ × ι)} {s' : σ} (h : Course step start past s) (hlater : Course step s later s') :
    Course step start (later ++ past) s' := by
  induction hlater with
  | start => exact h
  | next _ hlast ih => exact ih.next hlast

end Course

end Taskologic.Library
