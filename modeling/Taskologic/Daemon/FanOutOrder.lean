import Taskologic.Core.FanOutClosing
import Taskologic.Daemon.FanOut

/-!
# The order in which a fan-out is finished

A fan-out step is finished when the last of its tasks is. Over any order in which the tasks of one go
at a step are finished or deleted, `finished_fires_at_last` says that the end of the step is fired
once, at the last event, and that the order does not show in what is made, for the orders that end
with a finish. Two kinds of orders are left out.

An order that ends with a deletion fires the end of the step at no event: the deletion that closes a
group is not told apart from one that does not.

A step that waits both for the end of another step and for an answer to its question is made once
when both come at the same event and twice when they do not, so the order shows in what is made for
such a step, unless it runs once.
-/

set_option autoImplicit false
set_option relaxedAutoImplicit false

namespace Taskologic.Daemon

open Taskologic.Core Taskologic.Library Taskologic.Core.RunState

/-- A run that is over makes nothing. -/
theorem createdBy_of_inactive {zone : Zone} {s : RunState} (h : s.active = false)
    (events : List TaskEvent) : s.createdBy zone events = [] := by
  induction events generalizing s with
  | nil => rfl
  | cons e rest ih =>
    have hnext : (s.next zone e).active = false := by
      rw [active_next, h, Bool.false_and, Bool.false_and]
    rw [createdBy, ih hnext, planFor, h]
    rfl

/-- Finishing or deleting the root makes nothing, and ends the run. -/
theorem createdBy_root {zone : Zone} {s : RunState} {iteration : ℕ} {ids closed : List TaskId}
    (h : s.GroupAt rootKey iteration ids closed) (hfresh : s.Fresh) {events : List TaskEvent}
    (hremaining : Remaining ids closed events) : s.createdBy zone events = [] := by
  cases events with
  | nil => rfl
  | cons e rest =>
    have hend : s.active = true → s.planFor zone e = { Plan.default with endRun := true } := by
      intro hactive
      obtain ⟨t, ht, -, hstep, -⟩ := exists_stepOf_moved h hfresh hremaining.head.1
      rw [planFor, if_pos hactive]
      apply react_of_end
      cases e with
      | finished task answer now =>
        simp only [TaskEvent.task] at ht
        simp [TaskEvent.event, fire, ht, hstep]
      | deleted task now =>
        simp only [TaskEvent.task] at ht
        simp [TaskEvent.event, fire, ht, hstep]
    cases hactive : s.active with
    | false => exact createdBy_of_inactive hactive _
    | true =>
      have hnext : (s.next zone e).active = false := by
        rw [active_next, hend hactive, Bool.not_true, Bool.and_false]
      rw [createdBy, createdBy_of_inactive hnext, hend hactive]
      rfl

/-- Over every order in which the tasks of one go at a step are finished or deleted and which ends
with a finish, while the run is running: a trigger on the end of the step fires at the last event and
at no other, and two such orders of the same events make the same goes of every other step, unless
that step waits both for the end of the step and for an answer in it and may run more than once. -/
theorem finished_fires_at_last (draft : ProgramDraft) (stored : Board)
    (hvalid : validate draft stored = .ok ()) (fanOut : List (Text × List Text))
    (steps : List Step) (hsteps : withFanOut draft.steps fanOut = .ok steps) (zone : Zone)
    (s : RunState) (hrun : s.steps = steps) (hfresh : s.Fresh) (hactive : s.active = true)
    (key : Text) (iteration : ℕ) (huntouched : s.GroupUntouched key iteration)
    (events : List TaskEvent)
    (horder : (events.map TaskEvent.task).Perm (s.groupIds key iteration))
    (hends : EndsFinished events)
    (hrunning : s.GroupCounts key iteration ∨ (s.after zone events.dropLast).active = true) :
    (∀ step ∈ steps, .finished key ∈ step.created → ∀ before e rest,
        events = before ++ e :: rest →
        (Trigger.hits ((s.after zone before).firedBy e) (.finished key) = true ↔ rest = [])) ∧
      ∀ other : List TaskEvent, events.Perm other → EndsFinished other →
        (s.GroupCounts key iteration ∨ (s.after zone other.dropLast).active = true) →
        ∀ index step, steps[index]? = some step →
          (step.once = true ∨ .finished key ∉ step.created ∨
            ∀ answer, .answered key answer ∉ step.created) →
          goes index (s.createdBy zone events) = goes index (s.createdBy zone other) := by
  subst hrun
  constructor
  · intro step hstep htrigger before e rest hevents
    have hroot := ne_rootKey_of_finished hvalid hsteps hstep htrigger
    rw [hits_finished]
    exact finished_mem_firedBy_iff hroot hfresh huntouched horder hends hactive hrunning hevents
  · intro other hperm hends' hrunning' index step hstep hone
    have horder' : (other.map TaskEvent.task).Perm (s.groupIds key iteration) :=
      (hperm.symm.map _).trans horder
    have hgroup := huntouched.groupAt hfresh
    by_cases hroot : key = rootKey
    · subst hroot
      rw [createdBy_root hgroup hfresh (remaining_of_perm hfresh horder),
        createdBy_root hgroup hfresh (remaining_of_perm hfresh horder')]
    · have hkeys := keyed_of_withFanOut hvalid hsteps
      rw [goes_createdBy hroot hkeys hstep hgroup hfresh (remaining_of_perm hfresh horder)
          fun _ _ _ ↦ active_at_event hroot hfresh huntouched horder hactive hrunning,
        goes_createdBy hroot hkeys hstep hgroup hfresh (remaining_of_perm hfresh horder')
          fun _ _ _ ↦ active_at_event hroot hfresh huntouched horder' hactive hrunning',
        rounds_hits_perm hone hperm hends hends']

/-! ### A step that fans out over two rooms -/

/-- Cleans two rooms and asks about each. -/
def roomsStep : Step :=
  { Step.default with
    key := text "1"
    title := text "Clean"
    created := [.withRoot]
    question := some ⟨text "Was it dirty?", .yesNo, none⟩
    fanOut := some [text "hall", text "bath"] }

/-- Waits for the rooms. -/
def airStep (created : List Trigger) : Step :=
  { Step.default with key := text "2", title := text "Air", created := created }

def cleaning (created : List Trigger) : ProgramDraft where
  name := text "Clean"
  description := []
  steps := [{ Step.default with key := rootKey, title := text "Clean" }, roomsStep, airStep created]
  minSamples := 3

/-- The row of one room. -/
def roomRow (id : TaskId) (room : Text) : RunRow :=
  ⟨id, text "1", 1, some room, true, false, false, false, none⟩

/-- A run of the program in which both rooms are open. -/
def cleaningRun (created : List Trigger) : RunState where
  steps := (cleaning created).steps
  rows := [⟨1, rootKey, 1, none, false, false, false, false, none⟩, roomRow 2 (text "hall"),
    roomRow 3 (text "bath")]
  started := true
  active := true
  landsDone := false
  nextId := 4

theorem fresh_cleaningRun (created : List Trigger) : (cleaningRun created).Fresh :=
  ⟨show ([1, 2, 3] : List TaskId).Nodup by decide, by simp [cleaningRun, roomRow]⟩

theorem finished_fires_at_last_cleaning :
    Trigger.hits (((cleaningRun [.finished (text "1")]).after .utc
      [.deleted 3 0]).firedBy (.finished 2 none 0)) (.finished (text "1")) = true :=
  ((finished_fires_at_last (cleaning [.finished (text "1")]) (boardWithMembers 1000 [])
    (by decide +kernel) [] _ rfl .utc (cleaningRun [.finished (text "1")]) rfl (fresh_cleaningRun _)
    rfl (text "1") 1 (by decide +kernel) [.deleted 3 0, .finished 2 none 0] (by decide +kernel)
    ⟨[.deleted 3 0], .finished 2 none 0, rfl, rfl⟩ (.inl (by decide +kernel))).1
      (airStep [.finished (text "1")]) (by simp [cleaning]) (by simp [airStep]) [.deleted 3 0] _ []
      rfl).mpr rfl

/-- Two ways the order shows. When the deletion of one room comes last, nothing is fired and nothing
is made, while the other order of the two events makes the step that waits for the rooms. And a step
that also waits for an answer is made once or twice, as the answer comes with the last room or before
it. -/
theorem not_order_independent_cleaning :
    (validate (cleaning [.finished (text "1")]) (boardWithMembers 1000 []) = .ok () ∧
      (cleaningRun [.finished (text "1")]).groupIds (text "1") 1 = [2, 3] ∧
      ((cleaningRun [.finished (text "1")]).after .utc [.finished 2 (some yes) 0]).firedBy
        (.deleted 3 0) = [] ∧
      (cleaningRun [.finished (text "1")]).createdBy .utc
        [.finished 2 (some yes) 0, .deleted 3 0] = [] ∧
      goes 2 ((cleaningRun [.finished (text "1")]).createdBy .utc
        [.deleted 3 0, .finished 2 (some yes) 0]) = [(1, none)]) ∧
    validate (cleaning [.finished (text "1"), .answered (text "1") yes])
        (boardWithMembers 1000 []) = .ok () ∧
      goes 2 ((cleaningRun [.finished (text "1"), .answered (text "1") yes]).createdBy .utc
        [.finished 2 (some yes) 0, .finished 3 (some no) 0]) = [(1, none), (2, none)] ∧
      goes 2 ((cleaningRun [.finished (text "1"), .answered (text "1") yes]).createdBy .utc
        [.finished 3 (some no) 0, .finished 2 (some yes) 0]) = [(1, none)] := by
  refine ⟨⟨?_, ?_, ?_, ?_, ?_⟩, ?_, ?_, ?_⟩ <;> decide +kernel

end Taskologic.Daemon
