import Taskologic.Daemon.Stamping
import Taskologic.Core.TemplateDates

/-!
# Dates of stamped tasks

When the drafts of a root and of the templates it reaches pass the validator (`stampedDrafts_pass_iff`): the people
they name are still on the board, and the dates of each template are in order. Where the dates are, no refusal of
`createFromTemplate` is about dates, other than those of the draft it is given (`spares_createFromTemplate`).

Scope. The form of the client shows the dates of the root's task in whole minutes of the wall clock, for the user to
change; `formDraft` has them as they are worked out.
-/

set_option autoImplicit false
set_option relaxedAutoImplicit false

namespace Taskologic.Daemon

open Taskologic.Core Taskologic.Library

/-! ### Drafts that pass -/

/-- The template as it was accepted when it was saved, with its board as it was then. -/
def SavedAccepted (template : Template) : Prop :=
  ∃ board id name given s s',
    templateInput board id name given template.options s = .ok ((template.name, template.draft), s')

/-- Everybody the draft names is on the board. -/
structure NamesMembers (draft : TaskDraft) (board : Board) : Prop where
  assignees : ∀ uid ∈ draft.assignees, board.isMember uid
  recipients : ∀ rule ∈ draft.printRules, rule.recipients.Allowed board

/-- All templates of a store are as they were accepted. -/
def Store.AllAccepted (s : Store) : Prop := ∀ template ∈ s.templates, SavedAccepted template

section Saved

variable {outside : Outside} {actor : Uid} {board : Board} {name : Text} {given : TaskDraft}
  {options : TemplateOptions} {template : Template} {s s' : Store}

theorem allAccepted_makeTemplate (haccepted : s.AllAccepted)
    (h : makeTemplate outside actor board name given options s = .ok (template, s')) : s'.AllAccepted := by
  simp only [makeTemplate, createTemplate, Tx.bind_eq_ok, Tx.read_eq_ok, Tx.require_eq_ok, demand_eq_ok,
    Tx.write_eq_ok, Tx.pure_eq_ok, Prod.mk.injEq, recordEvent_eq_ok, requireTemplate_eq_ok] at h
  obtain ⟨⟨saved, draft⟩, _, hinput, _, _, ⟨_, _, ⟨rfl, rfl⟩, _, _, ⟨rfl, rfl⟩, _, _, ⟨shortId, -, rfl, rfl⟩, _, _,
    ⟨-, -, rfl⟩, _, _, ⟨-, rfl⟩, _, -, rfl, rfl⟩, _, _, ⟨-, rfl⟩, -, rfl⟩ := h
  obtain rfl := reads_templateInput _ _ _ _ _ _ _ _ hinput
  intro other hother
  rcases List.mem_append.mp hother with hother | hother
  · exact haccepted other hother
  · obtain rfl := List.mem_singleton.mp hother
    exact ⟨board, 0, name, given, _, _, hinput⟩

theorem allAccepted_commit (haccepted : s.AllAccepted) :
    (commit (makeTemplate outside actor board name given options) s).2.AllAccepted := by
  obtain hsame | ⟨template, hrun⟩ := snd_commit (makeTemplate outside actor board name given options) s
  · rwa [hsame]
  · exact allAccepted_makeTemplate haccepted hrun

theorem allAccepted_saveTemplate {id : TemplateId} (haccepted : s.AllAccepted)
    (h : saveTemplate outside actor board id name given options s = .ok (template, s')) : s'.AllAccepted := by
  simp only [saveTemplate, updateTemplate, Tx.bind_eq_ok, Tx.write_eq_ok, Tx.pure_eq_ok, Prod.mk.injEq,
    recordEvent_eq_ok, requireTemplate_eq_ok] at h
  obtain ⟨⟨saved, draft⟩, _, hinput, _, _, ⟨_, _, ⟨-, rfl⟩, _, -, rfl, rfl⟩, _, _, ⟨-, rfl⟩, -, rfl⟩ := h
  obtain rfl := reads_templateInput _ _ _ _ _ _ _ _ hinput
  intro other hother
  obtain ⟨before, hbefore, rfl⟩ := List.mem_map.mp hother
  split_ifs
  · exact ⟨board, id, name, given, _, _, hinput⟩
  · exact haccepted before hbefore

end Saved

/-- With dates of its own the draft of a template passes if it names members and the dates are in order. -/
theorem validateDraft_redated_iff {template : Template} (h : SavedAccepted template) (startAt dueAt : Option Instant)
    (board : Board) :
    validateDraft { template.draft with startAt, dueAt } board = .ok () ↔
      NamesMembers template.draft board ∧ startsAfter startAt dueAt = false := by
  obtain ⟨seen, id, name, given, s, s', hinput⟩ := h
  obtain ⟨-, hpass⟩ := stripped_templateInput hinput
  obtain ⟨htitle, -, hreminders, -, hrepeats, hrules⟩ := validateDraft_eq_ok.mp hpass
  rw [validateDraft_eq_ok]
  constructor
  · rintro ⟨-, hassignees, -, hdates, -, hrules'⟩
    exact ⟨⟨hassignees, fun rule hrule ↦ (validatePrintRules_eq_ok.mp hrules' rule hrule).2.2⟩, hdates⟩
  · rintro ⟨⟨hassignees, hrecipients⟩, hdates⟩
    refine ⟨htitle, hassignees, hreminders, hdates, hrepeats, validatePrintRules_eq_ok.mpr fun rule hrule ↦ ?_⟩
    obtain ⟨hsheet, hrange, -⟩ := validatePrintRules_eq_ok.mp hrules rule hrule
    exact ⟨hsheet, hrange, hrecipients rule hrule⟩

/-- The draft of the root, with the dates the form works out. -/
def formDraft (template : Template) (now : Instant) : TaskDraft :=
  { template.draft with
    startAt := template.options.startFor now
    dueAt := template.options.duePrefill.bind fun offset ↦ offset.after now }

theorem formDraft_pass_iff {template : Template} (h : SavedAccepted template) (now : Instant) (board : Board) :
    validateDraft (formDraft template now) board = .ok () ↔
      NamesMembers template.draft board ∧ template.options.DatesFit now none := by
  have hdue : (template.options.duePrefill.bind fun offset ↦ offset.after now) =
      template.options.dueFor now (template.options.startFor now) none := by
    have hnone : template.options.dueByAverage (template.options.startFor now) none = none := by
      unfold TemplateOptions.dueByAverage
      cases template.options.dueFromAverage <;> cases template.options.startFor now <;> rfl
    rw [TemplateOptions.dueFor, hnone, Option.none_or]
  rw [formDraft, hdue, validateDraft_redated_iff h, TemplateOptions.startsAfter_prefilled_iff]

/-- The history of a template that does not go by the average does not matter. -/
theorem datesFit_history_iff {options : TemplateOptions} {anchor : Instant} {history : Option (ℤ × ℕ)} :
    options.DatesFit anchor (if options.dueFromAverage.isSome then history else none) ↔
      options.DatesFit anchor history := by
  have htrusted : options.trustedAverage (if options.dueFromAverage.isSome then history else none) =
      options.trustedAverage history := by
    unfold TemplateOptions.trustedAverage
    cases options.dueFromAverage <;> rfl
  constructor <;> rintro ⟨haverage, hprefills⟩
  · exact ⟨by rwa [htrusted] at haverage, by rwa [htrusted] at hprefills⟩
  · exact ⟨by rwa [htrusted], by rwa [htrusted]⟩

theorem stampDraft_pass_iff {template : Template} (h : SavedAccepted template) (outside : Outside)
    (anchor : Instant) (board : Board) :
    validateDraft (stampDraft outside template anchor) board = .ok () ↔
      NamesMembers template.draft board ∧
        template.options.DatesFit anchor (outside.templateAverage template.id) := by
  rw [stampDraft, validateDraft_redated_iff h, TemplateOptions.startsAfter_prefilled_iff, datesFit_history_iff]

/-! ### Refusals about dates -/

theorem validatePrintRules_ne_startAfterDue (rules : List PrintRule) (board : Board) (sheets : Bool) :
    validatePrintRules rules board sheets ≠ .error .startAfterDue := by
  refine checkAll_ne_error fun rule _ ↦ bind_ne_error (ensure_ne_error (by decide)) fun _ ↦ ?_
  have hrecipients : validateRecipients board rule.recipients ≠ .error .startAfterDue := by
    cases rule.recipients with
    | users uids =>
      exact bind_ne_error (ensure_ne_error (by decide)) fun _ ↦
        checkAll_ne_error fun uid _ ↦ ensure_ne_error (by simp)
    | assignees | creator => exact fun h ↦ by cases h
  cases rule.when with
  | beforeDue lead => exact bind_ne_error (ensure_ne_error (by decide)) fun _ ↦ hrecipients
  | onCreate | onStart => exact hrecipients

/-- A draft whose dates are in order is not refused for them. -/
theorem validateDraft_ne_startAfterDue {draft : TaskDraft} (h : startsAfter draft.startAt draft.dueAt = false)
    (board : Board) : validateDraft draft board ≠ .error .startAfterDue := by
  refine bind_ne_error ?_ fun _ ↦ bind_ne_error ?_ fun _ ↦ bind_ne_error ?_ fun _ ↦ bind_ne_error ?_ fun _ ↦ ?_
  · exact bind_ne_error (ensure_ne_error (by decide)) fun _ ↦ ensure_ne_error (by decide)
  · exact checkAll_ne_error fun uid _ ↦ ensure_ne_error (by simp)
  · exact ensure_ne_error (by decide)
  · rw [ensure, if_pos h]
    exact fun hrun ↦ by cases hrun
  · cases draft.repeats with
    | none => exact validatePrintRules_ne_startAfterDue _ _ _
    | some spec =>
      refine bind_ne_error ?_ fun _ ↦ validatePrintRules_ne_startAfterDue _ _ _
      cases spec.validate <;> simp [Except.mapError]

/-- The refusal of a draft whose start date is after its due date. -/
abbrev aboutDates : AppError := .ofTask .startAfterDue

section Handler

variable {outside : Outside} {actor : Uid} {board : Board} {root : TemplateId} {column : ColumnId}
  {draft : TaskDraft} {s : Store}

theorem spares_demand (p : Store → Bool) {error : AppError} (h : error ≠ aboutDates) :
    Tx.Spares (fun _ ↦ True) aboutDates (demand p error) :=
  .andThen (.read _) fun _ ↦ .check _ h

theorem spares_nextPosition (column : ColumnId) : Tx.Spares (fun _ ↦ True) aboutDates (nextPosition column) :=
  .andThen (.read _) fun _ ↦ .andThen (.check _ (by decide)) fun _ ↦ .pure _

theorem spares_setRepeat (outside : Outside) (task : TaskId) (spec : Option RepeatSpec) :
    Tx.Spares (fun _ ↦ True) aboutDates (setRepeat outside task spec) := by
  cases spec with
  | none => exact .write _
  | some spec =>
    refine .andThen (.lift ?_) fun _ ↦ .write _
    cases spec.validate <;> simp [Except.mapError, AppError.ofTask]

theorem spares_writeRelations (outside : Outside) (task : TaskId) (draft : TaskDraft) :
    Tx.Spares (fun _ ↦ True) aboutDates (writeRelations outside task draft) :=
  .andThen (spares_demand _ (by decide)) fun _ ↦ .andThen (.write _) fun _ ↦
    .andThen (spares_demand _ (by decide)) fun _ ↦ .andThen (.write _) fun _ ↦ spares_setRepeat _ _ _

/-- Making a task is not refused for dates that are in order. -/
theorem spares_createTask (outside : Outside) (board : Board) (column : ColumnId) (creator : Uid)
    (fromTemplate : Option TemplateId) (h : startsAfter draft.startAt draft.dueAt = false) :
    Tx.Spares (fun _ ↦ True) aboutDates (createTask outside board column draft creator fromTemplate) := by
  refine .andThen (.lift ?_) fun _ ↦ .andThen (.read _) fun _ ↦ .andThen (.read _) fun _ ↦
    .andThen (.require _ (by decide)) fun _ ↦ .andThen (spares_nextPosition _) fun _ ↦
    .andThen (spares_demand _ (by decide)) fun _ ↦ .andThen (.write _) fun _ ↦
    .andThen (spares_writeRelations _ _ _) fun _ ↦ .andThen (.write _) fun _ ↦
    .andThen (.read _) fun _ ↦ .require _ (by decide)
  have hpass := validateDraft_ne_startAfterDue h board
  cases hchecked : validateDraft draft board with
  | ok => exact fun hrun ↦ by cases hrun
  | error error =>
    intro hrun
    obtain rfl : error = .startAfterDue := by simpa [Except.mapError, AppError.ofTask] using hrun
    exact hpass hchecked

theorem spares_checkDeps (uid : Uid) (task : TaskId) (dependsOn : List TaskId) :
    Tx.Spares (fun _ ↦ True) aboutDates (checkDeps uid task dependsOn) := by
  have hdep (dep : TaskId) : Tx.Spares (fun _ ↦ True) aboutDates (checkDep uid dep) :=
    .andThen (.read _) fun _ ↦ .andThen (.require _ (by simp [AppError.ofTask])) fun _ ↦
      .andThen (.andThen (.read _) fun _ ↦ .require _ (by decide)) fun _ ↦ .check _ (by simp [AppError.ofTask])
  unfold checkDeps
  split_ifs
  · exact .pure _
  · refine .andThen (.each (fun dep _ ↦ hdep dep) fun _ _ _ _ _ _ _ ↦ trivial) fun _ ↦
      .andThen (.read _) fun bad ↦ ?_
    cases bad with
    | none => exact .pure _
    | some dep => exact .fail (by simp [AppError.ofTask])

theorem spares_checkPrintRecipients (rules : List PrintRule) :
    Tx.Spares (fun _ ↦ True) aboutDates (checkPrintRecipients rules) :=
  .andThen (.each (fun _ _ ↦ spares_demand _ (by simp [AppError.ofTask])) fun _ _ _ _ _ _ _ ↦ trivial) fun _ ↦ .pure _

/-- Stamping out leaves the templates as they are. -/
theorem keeps_stamp (outside : Outside) (actor : Uid) (board : Board) (column : ColumnId)
    (anchors : TemplateId → Option Instant) (rootStart : Instant) (id : TemplateId) :
    Tx.Within (Tx.Keeps Store.templates) (stamp outside actor board column anchors rootStart id) := by
  refine .bind (.read _) fun found ↦ ?_
  cases found with
  | none => exact .pure _
  | some template =>
    exact .bind (fun _ _ _ hcreate ↦ (createTask_tables hcreate).2.2.1) fun _ ↦ .pure _

/-- The dates of everything a root reaches are in order. -/
def Store.AllFit (s : Store) (outside : Outside) (board : BoardId) (root : TemplateId) (rootStart : Instant) : Prop :=
  ∀ id ∈ expansionOrder (s.templateGraph board) root, ∀ template, s.template id = some template →
    template.options.DatesFit ((prefillAnchors (s.listTemplates board) root rootStart id).getD rootStart)
      (outside.templateAverage template.id)

theorem spares_stamp {anchors : TemplateId → Option Instant} {rootStart : Instant} {id : TemplateId}
    (hfit : ∀ template, s.template id = some template →
      template.options.DatesFit ((anchors id).getD rootStart) (outside.templateAverage template.id)) :
    Tx.Spares (fun s' ↦ s'.templates = s.templates) aboutDates
      (stamp outside actor board column anchors rootStart id) := by
  refine .read_bind fun s' hsame ↦ ?_
  have hfound : s'.template id = s.template id := by simp only [Store.template, hsame]
  rw [hfound]
  cases htemplate : s.template id with
  | none => exact fun hrun ↦ by cases hrun
  | some template =>
    have hdates : startsAfter (stampDraft outside template ((anchors id).getD rootStart)).startAt
        (stampDraft outside template ((anchors id).getD rootStart)).dueAt = false :=
      TemplateOptions.startsAfter_prefilled_iff.mpr (datesFit_history_iff.mpr (hfit template htemplate))
    exact Tx.Spares.andThen (spares_createTask outside board column actor _ hdates) (fun _ ↦ .pure _) s' trivial

/-- Where the dates of all templates to stamp out fit, and those of the draft are in order, making tasks from a
template is not refused for dates. -/
theorem spares_createFromTemplate
    (hfit : s.AllFit outside board.id root (draft.startAt.elim outside.now fun start ↦ max start outside.now))
    (hdates : startsAfter draft.startAt draft.dueAt = false) :
    createFromTemplate outside actor board root column draft s ≠ .error aboutDates := by
  have hkeeps (anchors : TemplateId → Option Instant) (rootStart : Instant) (id : TemplateId) :
      Tx.Leads (fun s' : Store ↦ s'.templates = s.templates)
        (stamp outside actor board column anchors rootStart id) fun _ s' ↦ s'.templates = s.templates :=
    fun _ _ _ hsame hrun ↦ (keeps_stamp _ _ _ _ _ _ _ _ _ _ hrun).trans hsame
  have hspares : Tx.Spares (fun s' : Store ↦ s' = s) aboutDates
      (createFromTemplate outside actor board root column draft) := by
    refine .read_bind fun s' hsame ↦ ?_
    subst hsame
    refine Tx.Spares.bind (P := fun s' : Store ↦ s'.templates = _) (.each (fun id hid ↦ spares_stamp (hfit id hid))
      fun id _ ↦ hkeeps _ _ id) (.each fun id _ ↦ hkeeps _ _ id) (fun stamped ↦ ?_) _ rfl
    exact .of_true (.andThen (spares_checkDeps _ _ _) fun _ ↦ .andThen (spares_checkPrintRecipients _) fun _ ↦
      spares_createTask _ _ _ _ _ hdates)
  exact hspares s rfl

end Handler

/-! ### Everything a root stamps out -/

/-- The people a template names are members of the board, and so for all that a root reaches. -/
def Store.AllMembers (s : Store) (board : Board) (root : TemplateId) : Prop :=
  ∀ id ∈ expansionOrder (s.templateGraph board.id) root, ∀ template, s.template id = some template →
    NamesMembers template.draft board

/-- The drafts for a root and for everything it reaches pass exactly if all they name are members of the board and
the dates of each template fit. Where the dates fit, nothing is refused for dates but the draft that is given. -/
theorem stampedDrafts_pass_iff {s : Store} (outside : Outside) (board : Board) {root : Template}
    (now rootStart : Instant) (hroot : SavedAccepted root) (hsaved : s.AllAccepted) :
    ((validateDraft (formDraft root now) board = .ok () ∧
        ∀ id ∈ expansionOrder (s.templateGraph board.id) root.id, ∀ template, s.template id = some template →
          validateDraft (stampDraft outside template
            ((prefillAnchors (s.listTemplates board.id) root.id rootStart id).getD rootStart)) board = .ok ()) ↔
      (NamesMembers root.draft board ∧ s.AllMembers board root.id) ∧
        root.options.DatesFit now none ∧ s.AllFit outside board.id root.id rootStart) ∧
    ∀ (actor : Uid) (column : ColumnId) (draft : TaskDraft), startsAfter draft.startAt draft.dueAt = false →
      s.AllFit outside board.id root.id (draft.startAt.elim outside.now fun start ↦ max start outside.now) →
        createFromTemplate outside actor board root.id column draft s ≠ .error aboutDates := by
  refine ⟨?_, fun actor column draft hdates hfit ↦ spares_createFromTemplate hfit hdates⟩
  rw [formDraft_pass_iff hroot]
  constructor
  · rintro ⟨⟨hmembers, hfit⟩, hall⟩
    have heach (id : TemplateId) (hid : id ∈ expansionOrder (s.templateGraph board.id) root.id) (template : Template)
        (htemplate : s.template id = some template) :=
      (stampDraft_pass_iff (hsaved template (mem_of_template htemplate).1) outside _ board).mp
        (hall id hid template htemplate)
    exact ⟨⟨hmembers, fun id hid template htemplate ↦ (heach id hid template htemplate).1⟩, hfit,
      fun id hid template htemplate ↦ (heach id hid template htemplate).2⟩
  · rintro ⟨⟨hmembers, hallMembers⟩, hfit, hallFit⟩
    exact ⟨⟨hmembers, hfit⟩, fun id hid template htemplate ↦
      (stampDraft_pass_iff (hsaved template (mem_of_template htemplate).1) outside _ board).mpr
        ⟨hallMembers id hid template htemplate, hallFit id hid template htemplate⟩⟩

/-! ### Washing with late soap -/

def hours (amount : ℕ) : Offset := ⟨amount, .hours⟩

/-- Soap is bought so many hours on and due three hours on; washing needs it. -/
def soapFrom (start : ℕ) : Store :=
  (commit (saveOne (text "Wash") [1]) (commit (makeTemplate (.still 0) 1 (boardWithMembers 1 [1]) (text "Soap")
    { TaskDraft.default with title := text "Soap" }
    ⟨some (hours start), some (hours 3), none, []⟩) bareBoard).2).2

theorem allAccepted_soapFrom (start : ℕ) : (soapFrom start).AllAccepted :=
  allAccepted_commit (allAccepted_commit fun _ h ↦ absurd h List.not_mem_nil)

/-- Soap that is bought two hours on is there before it is due. -/
theorem stampedDrafts_pass_iff_two : ∃ root, (soapFrom 2).template 2 = some root ∧
    validateDraft (formDraft root 0) (boardWithMembers 1 [1]) = .ok () ∧
      ∀ id ∈ expansionOrder ((soapFrom 2).templateGraph 1) root.id, ∀ template, (soapFrom 2).template id = some template →
        validateDraft (stampDraft (.still 0) template
          ((prefillAnchors ((soapFrom 2).listTemplates 1) root.id 0 id).getD 0)) (boardWithMembers 1 [1]) = .ok () := by
  have hplain : ∀ template ∈ (soapFrom 2).templates, template.draft.assignees = [] ∧ template.draft.printRules = [] ∧
      (template.options.startPrefill = none ∨ template.options = ⟨some (hours 2), some (hours 3), none, []⟩) := by
    decide +kernel
  have hmembers (template : Template) (hmem : template ∈ (soapFrom 2).templates) :
      NamesMembers template.draft (boardWithMembers 1 [1]) := by
    obtain ⟨hassignees, hrules, -⟩ := hplain template hmem
    exact ⟨by simp [hassignees], by simp [hrules]⟩
  have hfit (template : Template) (hmem : template ∈ (soapFrom 2).templates) (anchor : Instant) :
      template.options.DatesFit anchor none := by
    obtain hnone | hsoap := (hplain template hmem).2.2
    · exact ⟨by simp [hnone], by simp [hnone]⟩
    · rw [hsoap]
      refine ⟨fun _ _ length htrusted ↦ (by cases htrusted), fun start hstart due hdue _ _ _ ↦ ?_⟩
      obtain rfl := Option.mem_some_iff.mp hstart
      obtain rfl := Option.mem_some_iff.mp hdue
      decide
  obtain ⟨root, hroot⟩ : ∃ root, (soapFrom 2).template 2 = some root :=
    Option.isSome_iff_exists.mp (by decide +kernel)
  have hmem := (mem_of_template hroot).1
  have haccepted := allAccepted_soapFrom 2
  refine ⟨root, hroot, (stampedDrafts_pass_iff (.still 0) (boardWithMembers 1 [1]) 0 0 (haccepted root hmem)
    haccepted).1.mpr ⟨⟨hmembers root hmem, fun id _ template htemplate ↦ ?_⟩, hfit root hmem 0,
      fun id _ template htemplate ↦ ?_⟩⟩
  · exact hmembers template (mem_of_template htemplate).1
  · exact hfit template (mem_of_template htemplate).1 _

/-- Soap that is bought four hours on would be due an hour before. Nobody chose these dates, and the washing is
refused for them. -/
theorem soap_refused_for_dates : (soapFrom 4).AllAccepted ∧
    (∃ template ∈ (soapFrom 4).templates, template.id = 1 ∧
      validateDraft (stampDraft (.still 0) template 0) (boardWithMembers 1 [1]) = .error .startAfterDue) ∧
    (commit (createFromTemplate (.still 0) 1 (boardWithMembers 1 [1]) 2 1
      { TaskDraft.default with title := text "Wash" }) (soapFrom 4)).1 = .error aboutDates :=
  ⟨allAccepted_soapFrom 4, by decide +kernel, by decide +kernel⟩

end Taskologic.Daemon
