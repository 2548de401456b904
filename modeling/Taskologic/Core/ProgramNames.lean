import Taskologic.Core.Engine
import Taskologic.Library.Table

/-!
# Names of steps and answers

The validator and the engine read the names in a program with two comparisons. The validator takes a
mention for the step whose trimmed key it is, and two answers for one when they agree without blanks
around them and in lowercase. The engine compares keys as they are written and answers up to ASCII
case. `NamesAgree` says that the two come to the same: a finished step, an answer and an extra
dependency reach exactly the steps the validator took them for.

In a program that passes validation this holds exactly when every name is written the way the engine
reads it (`NamesExact`): the step a mention names has a key without blanks around it, and the text of
an answer trigger is one of the answers up to ASCII case. That is `namesAgree_iff_namesExact`. The
engine never fires more than the validator accepted (`canonical_eq_of_eqIgnoreAsciiCase`); what goes
wrong otherwise is a trigger that never fires.

Scope. Triggers of the root are read by neither function of the engine and are not asked about.
-/

set_option autoImplicit false
set_option relaxedAutoImplicit false

namespace Taskologic.Core

open Library

/-! ### What agreement means -/

/-- An event on a run fires a trigger. -/
def Fires (steps : List Step) (tasks : List StepTask) (event : RunEvent) (trigger : Trigger) : Prop :=
  ∃ firing, fire steps tasks event = some firing ∧ trigger.hits firing.fired = true

/-- The validator and the engine agree on every name in the steps other than the root. -/
structure NamesAgree (steps : List Step) : Prop where
  /-- A task that closes its group fires a trigger on a finished step exactly when it is a task of the
  step the validator took the trigger for. -/
  finished : ∀ step ∈ steps, step.isRoot = false → ∀ refers, .finished refers ∈ step.created →
    ∀ s, named steps refers = some s → ∀ tasks t answer, stepOf tasks t.taskId = some t →
      groupOpen tasks t = false →
      (Fires steps tasks (.finished t.taskId answer) (.finished refers) ↔ t.step = s.key)
  /-- Answering a task with a text, while finishing it or afterwards, fires a trigger on an answered
  step exactly when it is a task of the step the validator took the trigger for, and the validator
  takes the text and the answer of the trigger for the same answer. -/
  answered : ∀ step ∈ steps, step.isRoot = false → ∀ refers answer,
    .answered refers answer ∈ step.created → ∀ s question, named steps refers = some s →
      s.question = some question → ∀ tasks t given, stepOf tasks t.taskId = some t →
      ∀ event ∈ [RunEvent.answered t.taskId given, RunEvent.finished t.taskId (some given)],
        (Fires steps tasks event (.answered refers answer) ↔
          t.step = s.key ∧ question.canonical given = question.canonical answer)
  /-- An extra dependency is on the latest task of the step the validator took it for. -/
  alsoAfter : ∀ step ∈ steps, step.isRoot = false → ∀ refers ∈ step.alsoAfter,
    ∀ s, named steps refers = some s → ∀ tasks, latest tasks refers = latest tasks s.key

/-- Every name in the steps other than the root is written the way the engine reads it. -/
structure NamesExact (steps : List Step) : Prop where
  /-- The step a mention names has a key without blanks around it. -/
  keys : ∀ step ∈ steps, step.isRoot = false → ∀ refers ∈ step.refers,
    ∀ s, named steps refers = some s → trim s.key = s.key
  /-- The text of an answer trigger is one of the answers up to ASCII case. -/
  answers : ∀ step ∈ steps, step.isRoot = false → ∀ refers answer,
    .answered refers answer ∈ step.created → ∀ s question, named steps refers = some s →
      s.question = some question →
      ∃ given ∈ question.answers, eqIgnoreAsciiCase given answer = true

/-! ### What the engine fires -/

section Engine

variable {steps : List Step} {tasks : List StepTask} {t : StepTask}

/-- A finished task that closes its group fires the triggers that carry its step's key. -/
theorem fires_finished_iff (hmem : stepOf tasks t.taskId = some t)
    (hclosed : groupOpen tasks t = false) {answer : Option Text} {refers : Text} :
    Fires steps tasks (.finished t.taskId answer) (.finished refers) ↔
      t.step = refers ∧ t.step ≠ rootKey := by
  simp only [Fires, fire, hmem]
  by_cases hroot : t.step = rootKey
  · simp [hroot]
  · simpa [hroot, hits_finished, mem_fired_fireFinished, hclosed] using eq_comm

/-- An answer fires the triggers that carry its step's key and its text up to ASCII case. Finishing
the root fires nothing. -/
theorem fires_answered_iff (hmem : stepOf tasks t.taskId = some t) {event : RunEvent}
    {refers answer given : Text}
    (hevent : event ∈ [RunEvent.answered t.taskId given, .finished t.taskId (some given)]) :
    Fires steps tasks event (.answered refers answer) ↔
      (t.step = rootKey → event = .answered t.taskId given) ∧ t.step = refers ∧
        ∃ question found, questionOf steps t.step = some question ∧
          question.canonical given = some found ∧ eqIgnoreAsciiCase found answer = true := by
  simp only [List.mem_cons, List.not_mem_nil, or_false] at hevent
  obtain rfl | rfl := hevent
  · simp only [Fires, fire, hmem, Option.some.injEq, exists_eq_left', hits_answered,
      mem_fired_fireAnswered, Trigger.answered.injEq]
    grind
  · by_cases hroot : t.step = rootKey
    · simp [Fires, fire, hmem, hroot]
    · simp only [Fires, fire, hmem, hroot, if_false, Option.some.injEq, exists_eq_left',
        hits_answered, mem_fired_fireFinished, Option.some_or, Option.bind_some,
        Trigger.answered.injEq, reduceCtorEq, false_and, false_or]
      grind

end Engine

/-! ### Comparing answers -/

theorem foldAnswer_of_canonical {question : Question} {given found : Text}
    (h : question.canonical given = some found) : foldAnswer found = foldAnswer given := by
  simpa using List.find?_some h

theorem mem_answers_of_canonical {question : Question} {given found : Text}
    (h : question.canonical given = some found) : found ∈ question.answers :=
  List.mem_of_find?_eq_some h

/-- Texts the validator compares alike name the same answer. -/
theorem canonical_congr {question : Question} {given other : Text}
    (h : foldAnswer given = foldAnswer other) :
    question.canonical given = question.canonical other := by
  rw [Question.canonical, Question.canonical, h]

theorem foldAnswer_eq_of_eqIgnoreAsciiCase {given other : Text}
    (h : eqIgnoreAsciiCase given other = true) : foldAnswer given = foldAnswer other :=
  toLowercase_trim_eq h

/-- What the engine takes for an answer, the validator takes for the same answer. -/
theorem canonical_eq_of_eqIgnoreAsciiCase {question : Question} {given found answer : Text}
    (hfound : question.canonical given = some found)
    (hsame : eqIgnoreAsciiCase found answer = true) :
    question.canonical given = question.canonical answer :=
  canonical_congr
    ((foldAnswer_of_canonical hfound).symm.trans (foldAnswer_eq_of_eqIgnoreAsciiCase hsame))

/-- Where the answers are apart for the validator, the engine takes the answer the validator found for
the text of a trigger if it takes any. -/
theorem eqIgnoreAsciiCase_of_canonical_eq {question : Question} {found answer : Text}
    (hapart : (question.answers.map foldAnswer).Nodup)
    (hfound : question.canonical answer = some found)
    (hexact : ∃ given ∈ question.answers, eqIgnoreAsciiCase given answer = true) :
    eqIgnoreAsciiCase found answer = true := by
  obtain ⟨given, hgiven, hsame⟩ := hexact
  have hfold : foldAnswer given = foldAnswer found :=
    (foldAnswer_eq_of_eqIgnoreAsciiCase hsame).trans (foldAnswer_of_canonical hfound).symm
  have heq : given = found :=
    List.inj_on_of_nodup_map hapart hgiven (mem_answers_of_canonical hfound) hfold
  rwa [← heq]

/-! ### Steps of a validated program -/

section Validated

variable {draft : ProgramDraft} {board : Board}

theorem mem_of_named {steps : List Step} {refers : Text} {s : Step}
    (h : named steps refers = some s) : s ∈ steps ∧ trim s.key = refers :=
  ⟨List.mem_of_find?_eq_some h, by simpa using List.find?_some h⟩

/-- The keys are apart also before trimming, so a key names its own step. -/
theorem defOf_of_mem (hvalid : validate draft board = .ok ()) {s : Step} (hs : s ∈ draft.steps) :
    defOf draft.steps s.key = some s := by
  exact (keyed_of_validate hvalid).find?_eq_some_iff.mpr ⟨hs, rfl⟩

theorem questionOf_of_mem (hvalid : validate draft board = .ok ()) {s : Step}
    (hs : s ∈ draft.steps) : questionOf draft.steps s.key = s.question := by
  rw [questionOf, defOf_of_mem hvalid hs, Option.bind_some]

/-- What the validator checked of the answer triggers and the question of a step. -/
theorem checked_of_mem (hvalid : validate draft board = .ok ()) {step : Step}
    (hstep : step ∈ draft.steps) :
    (∀ refers answer, .answered refers answer ∈ step.created →
        ∃ question, asked draft.steps refers = some question ∧
          (question.canonical answer).isSome) ∧
      ∀ question, step.question = some question →
        step.isRoot = false ∧ question.validate = .ok () := by
  have hchecked := (validate_eq_ok.mp hvalid).2.2.2.2 step hstep
  simp only [checkStep, bind_unit_eq_ok, checkAll_eq_ok, mapError_eq_ok] at hchecked
  obtain ⟨-, -, hanswered, hquestion, -⟩ := hchecked
  refine ⟨fun refers answer hmem ↦ ?_, fun question hq ↦ ?_⟩
  · have hcheck := hanswered _ hmem
    simp only [checkAnswered, ensure_eq_ok] at hcheck
    cases hasked : asked draft.steps refers with
    | none => simp [hasked] at hcheck
    | some question => exact ⟨question, rfl, by simpa [hasked] using hcheck⟩
  · simpa [checkQuestion, hq] using hquestion

/-- The trimmed key of a step is never the root's when somebody waits for the step. -/
theorem key_ne_rootKey (hvalid : validate draft board = .ok ()) {step s : Step} {refers : Text}
    (hstep : step ∈ draft.steps) (hrefers : refers ∈ step.refers)
    (hnamed : named draft.steps refers = some s) : s.key ≠ rootKey := by
  intro hroot
  apply refers_ne_rootKey hvalid hstep hrefers
  rw [← (mem_of_named hnamed).2, hroot]
  decide +kernel

/-- A step that was taken for a mention is found under its own key. -/
theorem questionOf_of_named (hvalid : validate draft board = .ok ()) {refers : Text} {s : Step}
    (hnamed : named draft.steps refers = some s) : questionOf draft.steps s.key = s.question :=
  questionOf_of_mem hvalid (mem_of_named hnamed).1

/-- The answer of a trigger is one of the answers of the question it waits for. -/
theorem canonical_of_answered (hvalid : validate draft board = .ok ()) {step s : Step}
    {refers answer : Text} {question : Question} (hstep : step ∈ draft.steps)
    (hcreated : .answered refers answer ∈ step.created)
    (hnamed : named draft.steps refers = some s) (hquestion : s.question = some question) :
    ∃ found, question.canonical answer = some found := by
  obtain ⟨asked', hasked, hcanonical⟩ := (checked_of_mem hvalid hstep).1 refers answer hcreated
  have heq : asked' = question := by
    simpa [asked, hnamed, hquestion, eq_comm] using hasked
  exact Option.isSome_iff_exists.mp (heq ▸ hcanonical)

/-! ### The two directions -/

/-- The run of one task, which is the only open one of its group. -/
def lone (key : Text) : StepTask := ⟨key, 1, none, 0, false, false, true, false⟩

theorem stepOf_lone (key : Text) : stepOf [lone key] (lone key).taskId = some (lone key) := rfl

theorem groupOpen_lone (key : Text) : groupOpen [lone key] (lone key) = false := by
  simp [groupOpen]

theorem latest_lone (key refers : Text) :
    latest [lone key] refers = if key = refers then some (lone key) else none := by
  by_cases hkey : key = refers <;> simp [latest, lone, hkey, lastMaxBy]

/-- A run of a single task of the step already shows a name that is not written as the engine reads
it. -/
theorem namesExact_of_namesAgree (hvalid : validate draft board = .ok ())
    (hagree : NamesAgree draft.steps) : NamesExact draft.steps where
  keys step hstep hroot refers hrefers s hnamed := by
    have htrim := (mem_of_named hnamed).2
    rw [htrim]
    rcases List.mem_append.mp hrefers with htrigger | hafter
    · obtain ⟨trigger, hcreated, htrigger⟩ := List.mem_filterMap.mp htrigger
      cases trigger with
      | withRoot => cases htrigger
      | rootStarted => cases htrigger
      | finished key =>
        cases htrigger
        have hfires := (hagree.finished step hstep hroot _ hcreated s hnamed _ _ none
          (stepOf_lone s.key) (groupOpen_lone s.key)).mpr rfl
        exact ((fires_finished_iff (stepOf_lone s.key) (groupOpen_lone s.key)).mp hfires).1.symm
      | answered key answer =>
        cases htrigger
        obtain ⟨question, hasked, -⟩ := (checked_of_mem hvalid hstep).1 _ _ hcreated
        have hquestion : s.question = some question := by simpa [asked, hnamed] using hasked
        have hfires := (hagree.answered step hstep hroot _ answer hcreated s question hnamed
          hquestion _ _ answer (stepOf_lone s.key) _ List.mem_cons_self).mpr ⟨rfl, rfl⟩
        exact ((fires_answered_iff (stepOf_lone s.key) List.mem_cons_self).mp hfires).2.1.symm
    · have hlatest := hagree.alsoAfter step hstep hroot refers hafter s hnamed [lone s.key]
      rw [latest_lone, latest_lone, if_pos rfl] at hlatest
      by_contra hne
      rw [if_neg (Ne.symm hne)] at hlatest
      cases hlatest
  answers step hstep hroot refers answer hcreated s question hnamed hquestion := by
    have hfires := (hagree.answered step hstep hroot refers answer hcreated s question hnamed
      hquestion _ _ answer (stepOf_lone s.key) _ List.mem_cons_self).mpr ⟨rfl, rfl⟩
    obtain ⟨-, -, asked', found, hasked, hfound, hsame⟩ :=
      (fires_answered_iff (stepOf_lone s.key) List.mem_cons_self).mp hfires
    have heq : asked' = question := by
      have hown := questionOf_of_named hvalid hnamed
      change questionOf draft.steps s.key = some asked' at hasked
      rw [hown, hquestion] at hasked
      exact (Option.some.inj hasked).symm
    exact ⟨found, heq ▸ mem_answers_of_canonical hfound, hsame⟩

/-- Names written the way the engine reads them reach the steps the validator took them for. -/
theorem namesAgree_of_namesExact (hvalid : validate draft board = .ok ())
    (hexact : NamesExact draft.steps) : NamesAgree draft.steps where
  finished step hstep hroot refers hcreated s hnamed tasks t answer hmem hclosed := by
    have hrefers := mem_refers_of_finished hcreated
    have hkey : s.key = refers :=
      (hexact.keys step hstep hroot refers hrefers s hnamed).symm.trans (mem_of_named hnamed).2
    rw [fires_finished_iff hmem hclosed, hkey]
    refine and_iff_left_of_imp fun ht ↦ ?_
    rw [ht, ← hkey]
    exact key_ne_rootKey hvalid hstep hrefers hnamed
  answered step hstep hroot refers answer hcreated s question hnamed hquestion tasks t given hmem
      event hevent := by
    have hrefers := mem_refers_of_answered hcreated
    have hkey : s.key = refers :=
      (hexact.keys step hstep hroot refers hrefers s hnamed).symm.trans (mem_of_named hnamed).2
    obtain ⟨found, hfound⟩ := canonical_of_answered hvalid hstep hcreated hnamed hquestion
    have hown := questionOf_of_named hvalid hnamed
    rw [hquestion] at hown
    have hkeyroot := key_ne_rootKey hvalid hstep hrefers hnamed
    rw [fires_answered_iff hmem hevent, ← hkey]
    constructor
    · rintro ⟨-, ht, other, given', hother, hgiven, hsame⟩
      rw [ht, hown, Option.some.injEq] at hother
      subst hother
      exact ⟨ht, canonical_eq_of_eqIgnoreAsciiCase hgiven hsame⟩
    · rintro ⟨ht, hcanonical⟩
      have hapart := nodup_of_validate
        ((checked_of_mem hvalid (mem_of_named hnamed).1).2 question hquestion).2
      refine ⟨fun hroot' ↦ absurd (ht.symm.trans hroot') hkeyroot, ht, question, found,
        ht ▸ hown, hcanonical.trans hfound, eqIgnoreAsciiCase_of_canonical_eq hapart hfound ?_⟩
      exact hexact.answers step hstep hroot refers answer hcreated s question hnamed hquestion
  alsoAfter step hstep hroot refers hafter s hnamed tasks := by
    have hkey := hexact.keys step hstep hroot refers (List.mem_append_right _ hafter) s hnamed
    rw [← (mem_of_named hnamed).2, hkey]

/-- In a program that passes validation the validator and the engine agree on names exactly when every
name is written the way the engine reads it. -/
theorem namesAgree_iff_namesExact (draft : ProgramDraft) (board : Board)
    (hvalid : validate draft board = .ok ()) :
    NamesAgree draft.steps ↔ NamesExact draft.steps :=
  ⟨namesExact_of_namesAgree hvalid, namesAgree_of_namesExact hvalid⟩

end Validated

/-! ### Two programs -/

/-- The step that asks. -/
def readStep (key : Text) : Step :=
  { Step.default with
    key := key
    title := text "Read"
    created := [.withRoot]
    question := some ⟨text "Publish?", .choice [text "nö", text "ja"], none⟩ }

/-- The step that waits for an answer. -/
def reviseStep (answer : Text) : Step :=
  { Step.default with
    key := text "2"
    title := text "Revise"
    created := [.answered (text "1") answer]
    alsoAfter := [text "1"] }

/-- A program that asks a question in its first step and branches on the answer. -/
def branching (key answer : Text) : ProgramDraft where
  name := text "Review"
  description := []
  steps := [{ Step.default with key := rootKey, title := text "Review" }, readStep key,
    reviseStep answer]
  minSamples := 3

theorem validate_branching :
    validate (branching (text "1") (text "JA")) (boardWithMembers 1000 []) = .ok () := by
  decide +kernel

/-- The answer of the trigger is an answer in capitals, which the engine folds too. -/
theorem namesAgree_branching : NamesAgree (branching (text "1") (text "JA")).steps := by
  refine (namesAgree_iff_namesExact _ (boardWithMembers 1000 []) validate_branching).mpr ⟨?_, ?_⟩
  · have htrimmed : ∀ s ∈ (branching (text "1") (text "JA")).steps, trim s.key = s.key := by
      decide +kernel
    exact fun _ _ _ _ _ s hnamed ↦ htrimmed s (mem_of_named hnamed).1
  · intro step hstep _ refers answer hcreated s question hnamed hquestion
    have htrigger : refers = text "1" ∧ answer = text "JA" := by
      simp only [branching, List.mem_cons, List.not_mem_nil, or_false] at hstep
      obtain rfl | rfl | rfl := hstep <;> simp_all [Step.default, readStep, reviseStep]
    obtain ⟨rfl, rfl⟩ := htrigger
    have hasked : asked (branching (text "1") (text "JA")).steps (text "1") =
        some ⟨text "Publish?", .choice [text "nö", text "ja"], none⟩ := by decide +kernel
    have heq : some question = asked (branching (text "1") (text "JA")).steps (text "1") := by
      rw [asked, hnamed, Option.bind_some, hquestion]
    cases heq.trans hasked
    exact ⟨text "ja", by decide, by decide⟩

/-- Two programs that pass validation with a trigger that never fires: one waits for the answer `nö`
in capitals, the other for a step whose key has a blank behind it. -/
theorem not_namesAgree_branching :
    (validate (branching (text "1") (text "NÖ")) (boardWithMembers 1000 []) = .ok () ∧
        ¬ NamesAgree (branching (text "1") (text "NÖ")).steps) ∧
      validate (branching (text "1 ") (text "ja")) (boardWithMembers 1000 []) = .ok () ∧
        ¬ NamesAgree (branching (text "1 ") (text "ja")).steps := by
  have hcase : validate (branching (text "1") (text "NÖ")) (boardWithMembers 1000 []) = .ok () := by
    decide +kernel
  have hblank : validate (branching (text "1 ") (text "ja")) (boardWithMembers 1000 []) =
      .ok () := by
    decide +kernel
  refine ⟨⟨hcase, fun hagree ↦ ?_⟩, hblank, fun hagree ↦ ?_⟩
  · obtain ⟨given, hgiven, hsame⟩ := (namesExact_of_namesAgree hcase hagree).answers
      (reviseStep (text "NÖ")) (by simp [branching]) (by decide) (text "1") (text "NÖ") (by decide)
      (readStep (text "1")) _ (by decide) rfl
    revert given
    decide
  · have htrim := (namesExact_of_namesAgree hblank hagree).keys
      (reviseStep (text "ja")) (by simp [branching]) (by decide) (text "1") (by decide)
      (readStep (text "1 ")) (by decide)
    revert htrim
    decide

end Taskologic.Core
