import Taskologic.Daemon.FanOut

/-!
# Whether a reaction can be saved

A run turns each creation of the engine into a draft and saves it like any other task, so the draft
has to pass `validateDraft` against the board as it is then, and the whole event is refused if one
does not. The program was validated against the board as it was when the program was stored.

`validateDraft_creation_iff` says exactly when the draft of a creation passes: the title with the
entry put in is visible and within the limit, a task for the starter finds the starter on the board,
and the named people of the rules it carries are still on the board (`Savable`). Nothing else can go
wrong: the named assignees are filtered, dates and reminders are never out of order, the lead times
were checked with the program, and group sheets stay behind.
-/

set_option autoImplicit false
set_option relaxedAutoImplicit false

namespace Taskologic.Daemon

open Taskologic.Core Taskologic.Library

/-- The title of a task for an entry: the entry in place of `{param}`, or behind the title if it never
says where the entry goes. -/
def titleFor (title : Text) : Option Text → Text
  | none => title
  | some entry =>
    if contains title param then replace title param entry else title ++ ' ' :: entry

/-- What has to hold of a step, its entry, the starter and the board for the task to be saved. -/
structure Savable (step : Step) (starter : Uid) (board : Board) (entry : Option Text) : Prop where
  /-- The title is visible with the entry put in. -/
  visible : trim (titleFor (trim step.title) entry) ≠ []
  /-- The title stays within the limit with the entry put in. -/
  short : (trim (titleFor (trim step.title) entry)).length ≤ maxTitleChars
  /-- A task for whoever started the run finds them on the board. -/
  starter : step.assign = .starter → board.isMember starter = true
  /-- The named people of the print rules a task carries are on the board. -/
  recipients : ∀ rule ∈ step.print, rule.slip ≠ .sheet → ∀ uids, rule.recipients = .users uids →
    ∀ uid ∈ uids, board.isMember uid = true

theorem title_draftFor (step : Step) (starter : Uid) (board : Board) (startAt : Option Instant)
    (dependsOn : List TaskId) (entry : Option Text) :
    (draftFor step starter board startAt dependsOn entry).title =
      titleFor (trim step.title) entry := by
  cases entry <;> simp [draftFor, fill, titleFor]

theorem forall_mem_assigneesFor_iff {starter : Uid} {board : Board} {assign : Assign} :
    (∀ uid ∈ assigneesFor starter board assign, board.isMember uid = true) ↔
      (assign = .starter → board.isMember starter = true) := by
  cases assign <;> simp [assigneesFor]

/-- The print rules of a step were in order when its program was stored, so only the membership of
the people they name is open. -/
theorem validatePrintRules_task_iff {rules : List PrintRule} {stored board : Board} {sheets : Bool}
    (hstored : validatePrintRules rules stored sheets = .ok ()) :
    validatePrintRules (rules.filter fun rule ↦ rule.slip != .sheet) board false = .ok () ↔
      ∀ rule ∈ rules, rule.slip ≠ .sheet → ∀ uids, rule.recipients = .users uids →
        ∀ uid ∈ uids, board.isMember uid = true := by
  rw [validatePrintRules_eq_ok] at hstored ⊢
  simp only [List.mem_filter, bne_iff_ne, and_imp]
  refine forall₃_congr fun rule hrule hslip ↦ ?_
  obtain ⟨-, hrange, hallowed⟩ := hstored rule hrule
  cases hto : rule.recipients with
  | users uids =>
    rw [hto] at hallowed
    simpa [Recipients.Allowed, hslip, hrange] using fun _ ↦ hallowed.1
  | assignees => simp [Recipients.Allowed, hslip, hrange]
  | creator => simp [Recipients.Allowed, hslip, hrange]

/-- The draft of a step that was validated passes exactly when it is savable. -/
theorem validateDraft_draftFor_iff {step : Step} {stored : Board} {sheets : Bool}
    (hstored : validatePrintRules step.print stored sheets = .ok ()) (starter : Uid) (board : Board)
    (startAt : Option Instant) (dependsOn : List TaskId) (entry : Option Text) :
    validateDraft (draftFor step starter board startAt dependsOn entry) board = .ok () ↔
      Savable step starter board entry := by
  rw [validateDraft_eq_ok, title_draftFor, validateTitle_eq_ok]
  simp only [draftFor, forall_mem_assigneesFor_iff, validatePrintRules_task_iff hstored]
  constructor
  · rintro ⟨⟨hvisible, hshort⟩, hstarter, -, -, -, hrecipients⟩
    exact ⟨hvisible, hshort, hstarter, hrecipients⟩
  · rintro ⟨hvisible, hshort, hstarter, hrecipients⟩
    exact ⟨⟨hvisible, hshort⟩, hstarter, ⟨rfl, rfl⟩, by cases startAt <;> rfl, by simp,
      hrecipients⟩

/-- The print rules of a step of a run were checked with the program: a fan-out list of the run
stands in for one of the program. -/
theorem validatePrintRules_of_withFanOut {draft : ProgramDraft} {stored : Board}
    (hvalid : validate draft stored = .ok ()) {fanOut : List (Text × List Text)}
    {steps : List Step} (hsteps : withFanOut draft.steps fanOut = .ok steps) {step : Step}
    (hstep : step ∈ steps) : ∃ sheets, validatePrintRules step.print stored sheets = .ok () := by
  obtain ⟨original, hmem, hnarrowed⟩ := narrowed_of_withFanOut hsteps hstep
  have hchecked := (validate_eq_ok.mp hvalid).2.2.2.2 original hmem
  simp only [checkStep, bind_unit_eq_ok, mapError_eq_ok] at hchecked
  have hprint : step.print = original.print := by
    obtain rfl | ⟨-, entries, -, -, rfl⟩ := hnarrowed <;> rfl
  exact ⟨_, hprint ▸ hchecked.2.2.2.2.2.2.2.2⟩

/-- Whatever a run makes, in whatever state and on whatever board, can be saved exactly when the
creation is savable: `stored` is the board the program was validated against, `board` the one the
task is made on. -/
theorem validateDraft_creation_iff (draft : ProgramDraft) (stored : Board)
    (hvalid : validate draft stored = .ok ()) (fanOut : List (Text × List Text))
    (steps : List Step) (hsteps : withFanOut draft.steps fanOut = .ok steps)
    (tasks : List StepTask) (started : Bool) (event : RunEvent) (now : Instant) (zone : Zone)
    (starter : Uid) (board : Board) (creation : Creation)
    (hcreation : creation ∈ (react steps tasks started event now zone).create) :
    ∃ step, steps[creation.step]? = some step ∧
      (validateDraft (draftFor step starter board creation.startAt creation.dependsOn
          creation.param) board = .ok () ↔
        Savable step starter board creation.param) := by
  obtain ⟨step, hstep, -⟩ := step_of_mem_create hcreation
  obtain ⟨sheets, hprint⟩ :=
    validatePrintRules_of_withFanOut hvalid hsteps (List.mem_of_getElem? hstep)
  exact ⟨step, hstep, validateDraft_draftFor_iff hprint starter board _ _ _⟩

/-! ### A program with a fan-out step -/

/-- Packs for every entry, prints for one user, and is assigned to whoever starts it. -/
def packStep : Step :=
  { Step.default with
    key := text "1"
    title := text "Pack"
    created := [.withRoot]
    print := [⟨.onStart, .task, .users [1001]⟩]
    fanOut := some [text "box"] }

def shipping : ProgramDraft where
  name := text "Shipping"
  description := []
  steps := [{ Step.default with key := rootKey, title := text "Ship" }, packStep]
  minSamples := 3

/-- The root as the engine sees it when the program has just started. -/
def shippingRoot : StepTask := ⟨rootKey, 1, none, 1, false, false, false, false⟩

/-- The creation the start of the program asks for. -/
def packCreation (entry : Text) : Creation := ⟨1, 1, some entry, none, [], true⟩

/-- What each creation of a plan is answered when it is saved. -/
def answers (steps : List Step) (starter : Uid) (board : Board) (plan : Plan) :
    List (Except TaskError Unit) :=
  plan.create.filterMap fun creation ↦
    steps[creation.step]?.map fun step ↦
      validateDraft (draftFor step starter board creation.startAt creation.dependsOn creation.param)
        board

theorem validateDraft_creation_shipping :
    ∃ step, shipping.steps[(packCreation (text "box")).step]? = some step ∧
      (validateDraft (draftFor step 1000 (boardWithMembers 1000 [1001]) none [] (text "box"))
          (boardWithMembers 1000 [1001]) = .ok () ↔
        Savable step 1000 (boardWithMembers 1000 [1001]) (text "box")) :=
  validateDraft_creation_iff shipping (boardWithMembers 1000 [1001]) (by decide +kernel) []
    shipping.steps rfl [shippingRoot] false .created 0 .utc 1000 (boardWithMembers 1000 [1001])
    (packCreation (text "box")) (by decide +kernel)

/-- Three reactions of validated programs that cannot be saved: an entry too long for the title, a
starter who is no longer on the board, and a recipient who is no longer on it. -/
theorem not_savable_shipping :
    validate shipping (boardWithMembers 1000 [1001]) = .ok () ∧
      (∃ steps, withFanOut shipping.steps [(text "1", [List.replicate 200 'x'])] = .ok steps ∧
        answers steps 1000 (boardWithMembers 1000 [1001])
          (react steps [shippingRoot] false .created 0 .utc) = [.error .titleTooLong]) ∧
      answers shipping.steps 1001 (boardWithMembers 1000 [])
        (react shipping.steps [shippingRoot] false .created 0 .utc) =
          [.error (.assigneeNotMember 1001)] ∧
      answers shipping.steps 1000 (boardWithMembers 1000 [])
        (react shipping.steps [shippingRoot] false .created 0 .utc) =
          [.error (.printRecipientNotMember 1001)] := by
  refine ⟨by decide +kernel, ⟨_, rfl, by decide +kernel⟩, by decide +kernel, by decide +kernel⟩

end Taskologic.Daemon
