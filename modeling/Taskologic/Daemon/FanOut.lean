import Taskologic.Core.Engine
import Taskologic.Daemon.Error
import Taskologic.Library.Table

/-!
# The steps a run starts with

A run has its own copy of the steps of its program. Whoever starts it may give new entries for its
fan-out steps, and `withFanOut` is the copy with these in place: entries are trimmed, blank ones are
dropped, and a list must not come out empty. `Narrowed` is what a step of the copy has to do with a
step of the program.
-/

set_option autoImplicit false
set_option relaxedAutoImplicit false

namespace Taskologic.Daemon

open Taskologic.Core Taskologic.Library

/-- The step a fan-out list is for. -/
def takesFanOut (key : Text) (step : Step) : Bool := step.key == key && step.fanOut.isSome

/-- The entries that are used: trimmed, without the blank ones. -/
def visibleEntries (entries : List Text) : List Text := (entries.map trim).filter fun e ↦ e != []

/-- Puts one fan-out list in its place: the first step with the key that fans out. -/
def setFanOut (steps : List Step) (key : Text) (entries : List Text) :
    Except AppError (List Step) := do
  ensure (steps.any (takesFanOut key)) (.badRequest (.doesNotFanOut key))
  ensure (visibleEntries entries ≠ []) (.badRequest (.noEntry key))
  .ok (modifyFirst (takesFanOut key) (fun step ↦
    { step with fanOut := some (visibleEntries entries) }) steps)

/-- The run's own copy of the steps, with this run's fan-out lists. -/
def withFanOut (steps : List Step) : List (Text × List Text) → Except AppError (List Step)
  | [] => .ok steps
  | (key, entries) :: rest => do
    let steps ← setFanOut steps key entries
    withFanOut steps rest

/-- A step of the copy is a step of the program, or one with another fan-out list whose entries are
visible. -/
def Narrowed (original step : Step) : Prop :=
  step = original ∨ original.fanOut.isSome ∧ ∃ entries, entries ≠ [] ∧
    (∀ entry ∈ entries, entry ≠ []) ∧ step = { original with fanOut := some entries }

theorem Narrowed.refl (step : Step) : Narrowed step step := .inl rfl

theorem Narrowed.trans {original middle step : Step} (hfirst : Narrowed original middle)
    (hsecond : Narrowed middle step) : Narrowed original step := by
  obtain rfl | ⟨hfan, _, _, _, rfl⟩ := hfirst
  · exact hsecond
  · obtain rfl | ⟨-, entries, hne, hvisible, rfl⟩ := hsecond
    · exact .inr ⟨hfan, _, ‹_›, ‹_›, rfl⟩
    · exact .inr ⟨hfan, entries, hne, hvisible, rfl⟩

theorem Narrowed.created_eq {original step : Step} (h : Narrowed original step) :
    step.created = original.created := by
  obtain rfl | ⟨-, entries, -, -, rfl⟩ := h <;> rfl

theorem narrowed_of_setFanOut {steps copy : List Step} {key : Text} {entries : List Text}
    (h : setFanOut steps key entries = .ok copy) {step : Step} (hstep : step ∈ copy) :
    ∃ original ∈ steps, Narrowed original step := by
  simp only [setFanOut, bind_unit_eq_ok, ensure_eq_ok, Except.ok.injEq] at h
  obtain ⟨-, hvisible, rfl⟩ := h
  rcases mem_of_mem_modifyFirst hstep with hmem | ⟨old, hold, htakes, rfl⟩
  · exact ⟨step, hmem, .refl step⟩
  · have hfan : old.fanOut.isSome = true := by
      simp only [takesFanOut, Bool.and_eq_true] at htakes
      exact htakes.2
    refine ⟨old, hold, .inr ⟨hfan, visibleEntries entries, hvisible, fun entry hentry ↦ ?_, rfl⟩⟩
    simpa using (List.mem_filter.mp hentry).2

/-- Every step of a run comes from a step of the program. -/
theorem narrowed_of_withFanOut {fanOut : List (Text × List Text)} {steps copy : List Step}
    (h : withFanOut steps fanOut = .ok copy) {step : Step} (hstep : step ∈ copy) :
    ∃ original ∈ steps, Narrowed original step := by
  induction fanOut generalizing steps with
  | nil =>
    cases h
    exact ⟨step, hstep, .refl step⟩
  | cons pair rest ih =>
    obtain ⟨middle, hfirst, hrest⟩ := bind_eq_ok.mp h
    obtain ⟨between, hbetween, hnarrowed⟩ := ih hrest
    obtain ⟨original, hmem, hfirst'⟩ := narrowed_of_setFanOut hfirst hbetween
    exact ⟨original, hmem, hfirst'.trans hnarrowed⟩

/-- The steps of a run have the keys of the program's. -/
theorem keys_of_withFanOut {fanOut : List (Text × List Text)} {steps copy : List Step}
    (h : withFanOut steps fanOut = .ok copy) : copy.map Step.key = steps.map Step.key := by
  induction fanOut generalizing steps with
  | nil =>
    cases h
    rfl
  | cons pair rest ih =>
    obtain ⟨middle, hfirst, hrest⟩ := bind_eq_ok.mp h
    simp only [setFanOut, bind_unit_eq_ok, ensure_eq_ok, Except.ok.injEq] at hfirst
    obtain ⟨-, -, rfl⟩ := hfirst
    refine (ih hrest).trans (map_modifyFirst ?_ steps)
    exact fun _ ↦ rfl

/-- The steps of a run of a validated program have distinct keys. -/
theorem keyed_of_withFanOut {draft : ProgramDraft} {stored : Board}
    (hvalid : validate draft stored = .ok ()) {fanOut : List (Text × List Text)}
    {steps : List Step} (hsteps : withFanOut draft.steps fanOut = .ok steps) :
    Keyed Step.key steps := by
  rw [Keyed, keys_of_withFanOut hsteps]
  exact keyed_of_validate hvalid

/-- No step of a run of a validated program waits for the root to finish. -/
theorem ne_rootKey_of_finished {draft : ProgramDraft} {stored : Board}
    (hvalid : validate draft stored = .ok ()) {fanOut : List (Text × List Text)}
    {steps : List Step} (hsteps : withFanOut draft.steps fanOut = .ok steps) {step : Step}
    (hstep : step ∈ steps) {key : Text} (htrigger : .finished key ∈ step.created) :
    key ≠ rootKey := by
  obtain ⟨original, hmem, hnarrowed⟩ := narrowed_of_withFanOut hsteps hstep
  rw [hnarrowed.created_eq] at htrigger
  exact refers_ne_rootKey hvalid hmem (mem_refers_of_finished htrigger)

end Taskologic.Daemon
