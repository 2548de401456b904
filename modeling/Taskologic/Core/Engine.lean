import Mathlib.Data.List.Destutter
import Taskologic.Core.Program

/-!
# The program engine

Starting a program makes a root task and a run, and from then on every move on the run's tasks goes
through `react`, which answers with what to create, date and finish next. `react` is cut into the
questions it asks in turn: what the event fires and which task the new ones wait for (`fire`), which
steps wait for that (`Step.awaits`), what each of them makes (`creationsOf`), which tasks are dated
(`datedTasks`), and whether anything the root waits for is still open (`openAfter`).

`draftFor` is the task a step makes. `react_of_fire` reads the plan of an event that does not end the
run, and `step_of_mem_create` says what is made: tasks of steps of the run, each for an entry of
its step and as the next go of it.

Scope. Iterations are natural numbers; the counter of the source has 32 bits.
-/

set_option autoImplicit false
set_option relaxedAutoImplicit false

namespace Taskologic.Core

open Library

/-- One task a run has made, as much of it as the engine needs. -/
structure StepTask where
  step : Text
  iteration : ℕ
  /-- The fan-out entry this task is for, when the step fans out. -/
  param : Option Text
  taskId : TaskId
  /-- In the finished column or archived. -/
  done : Bool
  /-- Deleted by hand. The step counts as skipped. -/
  skipped : Bool
  counts : Bool
  /-- Finished with a question nobody has answered. The root waits. -/
  pendingAnswer : Bool
  deriving DecidableEq, Repr

/-- What just happened to a run. -/
inductive RunEvent where
  /-- The root task was made; the program has started. -/
  | created
  /-- The root task entered the started column. -/
  | rootStarted
  /-- One of the run's tasks entered the finished column, with the answer to its question when
  whoever finished it gave one. -/
  | finished (task : TaskId) (answer : Option Text)
  /-- A question on a finished task was answered afterwards. -/
  | answered (task : TaskId) (answer : Text)
  /-- One of the run's tasks was deleted. -/
  | deleted (task : TaskId)
  deriving DecidableEq, Repr

/-- A task the engine wants made. -/
structure Creation where
  /-- Index into the run's steps. -/
  step : ℕ
  iteration : ℕ
  /-- The fan-out entry this task is for. -/
  param : Option Text
  startAt : Option Instant
  /-- The task that triggered it, when one did, and the latest task of every step it also waits
  for. -/
  dependsOn : List TaskId
  counts : Bool
  deriving DecidableEq, Repr

/-- Everything the daemon has to do after an event. -/
structure Plan where
  create : List Creation
  /-- Tasks waiting for the root to start, to be dated now. -/
  setStart : List TaskId
  /-- Every step that counts is done: the root finishes itself. -/
  finishRoot : Bool
  /-- The root itself was finished or deleted by hand. The run is over. -/
  endRun : Bool
  /-- This task finished with a question and no answer. -/
  ask : Option TaskId
  /-- This task's question was answered so. -/
  answered : Option (TaskId × Text)
  deriving DecidableEq, Repr

/-- `Plan::default`. -/
def Plan.default : Plan := ⟨[], [], false, false, none, none⟩

/-! ### What an event fires -/

/-- What an event fires, which task the new ones wait for, and what becomes of the question of the
task it happened to. -/
structure Firing where
  fired : List Trigger
  triggerTask : Option TaskId
  ask : Option TaskId
  answered : Option (TaskId × Text)
  deriving DecidableEq, Repr

/-- Nothing is fired. -/
def Firing.nothing : Firing := ⟨[], none, none, none⟩

def stepOf (tasks : List StepTask) (id : TaskId) : Option StepTask :=
  tasks.find? fun t ↦ t.taskId == id

def defOf (steps : List Step) (key : Text) : Option Step := steps.find? fun s ↦ s.key == key

/-- The question of the step with a key. -/
def questionOf (steps : List Step) (key : Text) : Option Question :=
  (defOf steps key).bind Step.question

/-- Two tasks of one go at a step. -/
def StepTask.SameGroup (other t : StepTask) : Prop :=
  other.step = t.step ∧ other.iteration = t.iteration

instance (other t : StepTask) : Decidable (other.SameGroup t) :=
  inferInstanceAs (Decidable (_ ∧ _))

/-- Other tasks of the same go at the step are still going. -/
def groupOpen (tasks : List StepTask) (t : StepTask) : Bool :=
  tasks.any fun other ↦
    other.SameGroup t && other.taskId != t.taskId && !other.done && !other.skipped

/-- A finished task fires its answer's triggers in the same breath when it came with an answer or its
question has a default; without either the question stays open. A step that fans out is finished when
the last of its tasks is. -/
def fireFinished (steps : List Step) (tasks : List StepTask) (t : StepTask) (task : TaskId)
    (answer : Option Text) : Firing :=
  let closed := if groupOpen tasks t then [] else [Trigger.finished t.step]
  match questionOf steps t.step with
  | none => ⟨closed, some task, none, none⟩
  | some question =>
    match (answer.or question.default).bind question.canonical with
    | some given => ⟨closed ++ [.answered t.step given], some task, none, some (task, given)⟩
    | none => ⟨closed, some task, some task, none⟩

/-- A later answer fires its triggers, unless it is not an answer the question takes. -/
def fireAnswered (steps : List Step) (t : StepTask) (task : TaskId) (answer : Text) : Firing :=
  match (questionOf steps t.step).bind fun question ↦ question.canonical answer with
  | some given => ⟨[.answered t.step given], some task, none, some (task, given)⟩
  | none => .nothing

/-- What an event fires. Nothing comes back when the root itself is finished or deleted, which ends
the run. -/
def fire (steps : List Step) (tasks : List StepTask) : RunEvent → Option Firing
  | .created => some ⟨[.withRoot], none, none, none⟩
  | .rootStarted => some ⟨[.rootStarted], none, none, none⟩
  | .finished task answer =>
    match stepOf tasks task with
    | some t => if t.step = rootKey then none else some (fireFinished steps tasks t task answer)
    | none => some .nothing
  | .answered task answer =>
    match stepOf tasks task with
    | some t => some (fireAnswered steps t task answer)
    | none => some .nothing
  | .deleted task =>
    match stepOf tasks task with
    | some t => if t.step = rootKey then none else some .nothing
    | none => some .nothing

/-- Whether a fired trigger is the answer, ASCII case aside. -/
def Trigger.isAnswer (step answer : Text) : Trigger → Bool
  | .answered s a => s == step && eqIgnoreAsciiCase a answer
  | .withRoot | .rootStarted | .finished _ => false

/-- Whether a trigger is among those fired. -/
def Trigger.hits (fired : List Trigger) : Trigger → Bool
  | .answered step answer => fired.any (Trigger.isAnswer step answer)
  | other => fired.contains other

/-! ### What is made -/

/-- Whether a step is not the root and one of its triggers fired. -/
def Step.awaits (fired : List Trigger) (step : Step) : Bool :=
  !step.isRoot && step.created.any (Trigger.hits fired)

/-- The latest task of a step that was not skipped. -/
def latest (tasks : List StepTask) (key : Text) : Option StepTask :=
  lastMaxBy StepTask.iteration (tasks.filter fun t ↦ t.step == key && !t.skipped)

/-- What a new task depends on: the task that triggered it, and the latest task of every step it also
waits for. Equal neighbours count once. -/
def dependsOn (tasks : List StepTask) (triggerTask : Option TaskId) (step : Step) : List TaskId :=
  (triggerTask.toList ++ step.alsoAfter.filterMap fun key ↦
    (latest tasks key).map StepTask.taskId).destutter (· ≠ ·)

/-- One more than the greatest iteration the step has reached. -/
def nextIteration (tasks : List StepTask) (step : Step) : ℕ :=
  ((tasks.filter fun t ↦ t.step == step.key).map StepTask.iteration).foldr max 0 + 1

/-- The start date of a step's task. -/
def startAt (started : Bool) (now : Instant) (zone : Zone) : StartRule → Option Instant
  | .manual => none
  | .whenRootStarts => if started then some now else none
  | .afterTrigger offset => offset.after now
  | .daysLaterAt days time => daysLaterAt now days time zone

/-- A step that runs once has a task already. -/
def Step.spent (tasks : List StepTask) (step : Step) : Bool :=
  step.once && tasks.any fun t ↦ t.step == step.key && !t.skipped

/-- What a step makes once a trigger of it fired: one task per entry. -/
def creationsOf (tasks : List StepTask) (started : Bool) (now : Instant) (zone : Zone)
    (triggerTask : Option TaskId) (step : Step) (index : ℕ) : List Creation :=
  step.params.map fun entry ↦
    { step := index
      iteration := nextIteration tasks step
      param := entry
      startAt := Core.startAt started now zone step.start
      dependsOn := Core.dependsOn tasks triggerTask step
      counts := step.countsTowardRoot }

/-- Everything an event makes: one task per step per event, however many of its triggers fired. -/
def creations (steps : List Step) (tasks : List StepTask) (started : Bool) (now : Instant)
    (zone : Zone) (firing : Firing) : List Creation :=
  steps.zipIdx.flatMap fun (step, index) ↦
    if step.awaits firing.fired && !step.spent tasks then
      creationsOf tasks started now zone firing.triggerTask step index
    else []

/-- The tasks that wait for the root to start. -/
def datedTasks (steps : List Step) (tasks : List StepTask) : List TaskId :=
  (tasks.filter fun t ↦ !t.done && !t.skipped && t.step != rootKey &&
    steps.any fun s ↦ s.key == t.step && s.start == .whenRootStarts).map StepTask.taskId

/-! ### Whether the root is done -/

/-- The event finishes the task. -/
def RunEvent.finishes (task : TaskId) : RunEvent → Bool
  | .finished other _ => other == task
  | _ => false

/-- The event deletes the task. -/
def RunEvent.deletes (task : TaskId) : RunEvent → Bool
  | .deleted other => other == task
  | _ => false

/-- A finished task whose question nobody answered is still owed something, and so is the one the
event just asked. -/
def waiting (firing : Firing) (t : StepTask) : Bool :=
  (t.pendingAnswer && !firing.answered.any fun given ↦ given.1 == t.taskId) ||
    firing.ask == some t.taskId

/-- The root waits for the task, the outcome of the event included. -/
def openAfter (event : RunEvent) (firing : Firing) (t : StepTask) : Bool :=
  t.step != rootKey && t.counts && !(t.skipped || event.deletes t.taskId) &&
    (!(t.done || event.finishes t.taskId) || waiting firing t)

/-- The root finishes itself once it has started and nothing that counts is still open. -/
def finishesRoot (tasks : List StepTask) (started : Bool) (event : RunEvent) (firing : Firing)
    (create : List Creation) : Bool :=
  started && !tasks.any (openAfter event firing) &&
    !(tasks.any fun t ↦ t.step == rootKey && t.done) && create.all fun c ↦ !c.counts

/-! ### The decision -/

/-- Decide what an event means for a run. `tasks` is everything the run has made so far, `started`
whether the root has entered the started column, `zone` the starter's zone. -/
def react (steps : List Step) (tasks : List StepTask) (started : Bool) (event : RunEvent)
    (now : Instant) (zone : Zone) : Plan :=
  match fire steps tasks event with
  | none => { Plan.default with endRun := true }
  | some firing =>
    let started := started || event == .rootStarted
    let create := creations steps tasks started now zone firing
    { create
      setStart := if event = .rootStarted then datedTasks steps tasks else []
      finishRoot := finishesRoot tasks started event firing create
      endRun := false
      ask := firing.ask
      answered := firing.answered }

/-! ### What the parts say -/

/-- The triggers a finished task may fire: its step's, once its group is closed, and the answer's. -/
theorem mem_fired_fireFinished {steps : List Step} {tasks : List StepTask} {t : StepTask}
    {task : TaskId} {answer : Option Text} {trigger : Trigger} :
    trigger ∈ (fireFinished steps tasks t task answer).fired ↔
      (trigger = .finished t.step ∧ groupOpen tasks t = false) ∨
        ∃ question given, questionOf steps t.step = some question ∧
          (answer.or question.default).bind question.canonical = some given ∧
          trigger = .answered t.step given := by
  unfold fireFinished
  cases hquestion : questionOf steps t.step with
  | none => cases hopen : groupOpen tasks t <;> simp
  | some question =>
    cases hgiven : (answer.or question.default).bind question.canonical with
    | none => cases hopen : groupOpen tasks t <;> simp [hgiven]
    | some given => cases hopen : groupOpen tasks t <;> simp [hgiven]

theorem mem_fired_fireAnswered {steps : List Step} {t : StepTask} {task : TaskId} {answer : Text} {trigger : Trigger} :
    trigger ∈ (fireAnswered steps t task answer).fired ↔
      ∃ question given, questionOf steps t.step = some question ∧
        question.canonical answer = some given ∧ trigger = .answered t.step given := by
  unfold fireAnswered
  cases hquestion : questionOf steps t.step with
  | none => simp [Firing.nothing]
  | some question =>
    cases hgiven : question.canonical answer with
    | none => simp [hgiven, Firing.nothing]
    | some given => simp [hgiven]

theorem hits_finished {fired : List Trigger} {refers : Text} :
    Trigger.hits fired (.finished refers) = true ↔ .finished refers ∈ fired := by
  simp [Trigger.hits]

theorem hits_answered {fired : List Trigger} {refers answer : Text} :
    Trigger.hits fired (.answered refers answer) = true ↔
      ∃ given, .answered refers given ∈ fired ∧ eqIgnoreAsciiCase given answer = true := by
  simp only [Trigger.hits, List.any_eq_true]
  constructor
  · rintro ⟨trigger, hmem, hanswer⟩
    cases trigger with
    | answered s given =>
      simp only [Trigger.isAnswer, Bool.and_eq_true, beq_iff_eq] at hanswer
      obtain ⟨rfl, hsame⟩ := hanswer
      exact ⟨given, hmem, hsame⟩
    | withRoot => cases hanswer
    | rootStarted => cases hanswer
    | finished s => cases hanswer
  · rintro ⟨given, hmem, hsame⟩
    exact ⟨_, hmem, by simp [Trigger.isAnswer, hsame]⟩

theorem hits_nil (trigger : Trigger) : Trigger.hits [] trigger = false := by
  cases trigger <;> rfl

theorem Step.awaits_nil (step : Step) : step.awaits [] = false := by
  have hnone : Trigger.hits [] = fun _ ↦ false := funext hits_nil
  simp [Step.awaits, hnone]

/-- The plan of an event that does not end the run. -/
theorem react_of_fire {steps : List Step} {tasks : List StepTask} {started : Bool}
    {event : RunEvent} {now : Instant} {zone : Zone} {firing : Firing}
    (h : fire steps tasks event = some firing) :
    react steps tasks started event now zone =
      { create := creations steps tasks (started || event == .rootStarted) now zone firing
        setStart := if event = .rootStarted then datedTasks steps tasks else []
        finishRoot := finishesRoot tasks (started || event == .rootStarted) event firing
          (creations steps tasks (started || event == .rootStarted) now zone firing)
        endRun := false
        ask := firing.ask
        answered := firing.answered } := by
  rw [react, h]

/-- The plan of an event that ends the run. -/
theorem react_of_end {steps : List Step} {tasks : List StepTask} {started : Bool}
    {event : RunEvent} {now : Instant} {zone : Zone} (h : fire steps tasks event = none) :
    react steps tasks started event now zone = { Plan.default with endRun := true } := by
  rw [react, h]

/-- An event ends the run exactly when it fires nothing because it happened to the root. -/
theorem endRun_react (steps : List Step) (tasks : List StepTask) (started : Bool)
    (event : RunEvent) (now : Instant) (zone : Zone) :
    (react steps tasks started event now zone).endRun = (fire steps tasks event).isNone := by
  cases hfire : fire steps tasks event with
  | none => rw [react_of_end hfire]; rfl
  | some firing => rw [react_of_fire hfire]; rfl

/-- What is made: the tasks of the steps that await what was fired and are not spent. -/
theorem mem_creations_iff {steps : List Step} {tasks : List StepTask} {started : Bool}
    {now : Instant} {zone : Zone} {firing : Firing} {creation : Creation} :
    creation ∈ creations steps tasks started now zone firing ↔
      ∃ step, steps[creation.step]? = some step ∧ step.awaits firing.fired = true ∧
        step.spent tasks = false ∧
        creation ∈ creationsOf tasks started now zone firing.triggerTask step creation.step := by
  simp only [creations, List.mem_flatMap, Prod.exists, List.mem_zipIdx_iff_getElem?]
  constructor
  · rintro ⟨step, index, hstep, hmem⟩
    split_ifs at hmem with hawaits
    · simp only [Bool.and_eq_true, Bool.not_eq_true'] at hawaits
      have hindex : creation.step = index := by
        obtain ⟨entry, -, rfl⟩ := List.mem_map.mp hmem
        rfl
      exact ⟨step, hindex ▸ hstep, hawaits.1, hawaits.2, hindex ▸ hmem⟩
    · cases hmem
  · rintro ⟨step, hstep, hawaits, hspent, hmem⟩
    exact ⟨step, creation.step, hstep, by simpa [hawaits, hspent] using hmem⟩

/-- What is made for one step. -/
theorem filter_creations {steps : List Step} {tasks : List StepTask} {started : Bool}
    {now : Instant} {zone : Zone} {firing : Firing} {index : ℕ} {step : Step}
    (hstep : steps[index]? = some step) :
    (creations steps tasks started now zone firing).filter (fun c ↦ c.step == index) =
      if step.awaits firing.fired && !step.spent tasks then
        creationsOf tasks started now zone firing.triggerTask step index
      else [] := by
  let made (pair : Step × ℕ) : List Creation :=
    if pair.1.awaits firing.fired && !pair.1.spent tasks then
      creationsOf tasks started now zone firing.triggerTask pair.1 pair.2
    else []
  have hown : ∀ pair : Step × ℕ, (made pair).filter (fun c ↦ c.step == index) =
      if pair.2 = index then made pair else [] := by
    intro pair
    have hindex : ∀ c ∈ made pair, c.step = pair.2 := by
      intro c hc
      simp only [made] at hc
      split_ifs at hc
      · obtain ⟨entry, -, rfl⟩ := List.mem_map.mp hc
        rfl
      · cases hc
    split_ifs with hsame
    · exact List.filter_eq_self.mpr fun c hc ↦ by simp [hindex c hc, hsame]
    · exact List.filter_eq_nil_iff.mpr fun c hc ↦ by simp [hindex c hc, hsame]
  have hall : ∀ (rest : List Step) (offset : ℕ),
      ((rest.zipIdx offset).flatMap fun pair ↦ if pair.2 = index then made pair else []) =
        if offset ≤ index then (rest[index - offset]?).elim [] fun s ↦ made (s, index) else [] := by
    intro rest
    induction rest with
    | nil => intro offset; simp
    | cons s rest ih =>
      intro offset
      rw [List.zipIdx_cons, List.flatMap_cons, ih]
      rcases lt_trichotomy offset index with hlt | rfl | hgt
      · have hsub : index - offset = (index - (offset + 1)) + 1 := by omega
        simp [hlt.ne, hlt.le, Nat.succ_le_of_lt hlt, hsub]
      · simp
      · simp [hgt.ne', not_le.mpr hgt, show ¬ offset + 1 ≤ index by omega]
  have hcreations : creations steps tasks started now zone firing = steps.zipIdx.flatMap made := rfl
  rw [hcreations, List.filter_flatMap, funext hown, hall steps 0]
  simp [hstep, made]

theorem params_ne_nil (step : Step) : step.params ≠ [] := by
  unfold Step.params
  cases step.fanOut with
  | none => simp
  | some entries => by_cases hentries : entries = [] <;> simp [hentries]

/-- Whatever is made is made by a step of the run, for one of its entries and as its next go. -/
theorem step_of_mem_create {steps : List Step} {tasks : List StepTask} {started : Bool}
    {event : RunEvent} {now : Instant} {zone : Zone} {creation : Creation}
    (h : creation ∈ (react steps tasks started event now zone).create) :
    ∃ step, steps[creation.step]? = some step ∧ step.isRoot = false ∧
      creation.param ∈ step.params ∧ creation.iteration = nextIteration tasks step ∧
      creation.counts = step.countsTowardRoot := by
  cases hfire : fire steps tasks event with
  | none =>
    rw [react_of_end hfire] at h
    cases h
  | some firing =>
    rw [react_of_fire hfire] at h
    obtain ⟨step, hstep, hawaits, -, hmem⟩ := mem_creations_iff.mp h
    obtain ⟨entry, hentry, hmade⟩ := List.mem_map.mp hmem
    have hparam : creation.param = entry := by rw [← hmade]
    simp only [Step.awaits, Bool.and_eq_true, Bool.not_eq_true'] at hawaits
    exact ⟨step, hstep, hawaits.1, hparam ▸ hentry, by rw [← hmade], by rw [← hmade]⟩

/-- A new go at a step comes after every go there was. -/
theorem iteration_lt_nextIteration {tasks : List StepTask} {step : Step} {t : StepTask}
    (ht : t ∈ tasks) (hstep : t.step = step.key) : t.iteration < nextIteration tasks step := by
  have hmem : t.iteration ∈ (tasks.filter fun t ↦ t.step == step.key).map StepTask.iteration :=
    List.mem_map_of_mem (List.mem_filter.mpr ⟨ht, by simpa using hstep⟩)
  rw [nextIteration, Nat.lt_succ_iff]
  exact List.le_max_of_le hmem le_rfl

/-- The next go is the one after the greatest there was. -/
theorem nextIteration_eq {tasks : List StepTask} {step : Step} {n : ℕ}
    (hle : ∀ t ∈ tasks, t.step = step.key → t.iteration ≤ n)
    (hmax : n = 0 ∨ ∃ t ∈ tasks, t.step = step.key ∧ t.iteration = n) :
    nextIteration tasks step = n + 1 := by
  have hupper : ((tasks.filter fun t ↦ t.step == step.key).map StepTask.iteration).foldr max 0 ≤ n := by
    refine List.max_le_of_forall_le _ _ fun m hm ↦ ?_
    obtain ⟨t, ht, rfl⟩ := List.mem_map.mp hm
    obtain ⟨hmem, hkey⟩ := List.mem_filter.mp ht
    exact hle t hmem (by simpa using hkey)
  rcases hmax with rfl | ⟨t, ht, hkey, rfl⟩
  · rw [nextIteration, Nat.le_zero.mp hupper]
  · exact le_antisymm (Nat.succ_le_succ hupper) (iteration_lt_nextIteration ht hkey)

/-- The greatest go there was, if there was any. -/
theorem exists_iteration_eq {tasks : List StepTask} {step : Step} {n : ℕ}
    (h : nextIteration tasks step = n + 1) :
    n = 0 ∨ ∃ t ∈ tasks, t.step = step.key ∧ t.iteration = n := by
  by_cases hempty : (tasks.filter fun t ↦ t.step == step.key).map StepTask.iteration = []
  · left
    rw [nextIteration, hempty] at h
    simpa using h.symm
  · right
    have hmem := List.maximum_mem (List.foldr_max_of_ne_nil hempty).symm
    obtain ⟨t, ht, hiteration⟩ := List.mem_map.mp hmem
    obtain ⟨hmem, hkey⟩ := List.mem_filter.mp ht
    exact ⟨t, hmem, by simpa using hkey, hiteration.trans (Nat.succ.inj h)⟩

/-! ### The task a step makes -/

/-- Puts the entry of a fan-out step into a text of it. A title that never says where the entry goes
gets it appended. -/
def fill (step : Step) (entry : Option Text) (given : Text) : Text :=
  match entry with
  | none => given
  | some entry =>
    if contains given param then replace given param entry
    else if given = trim step.title then given ++ ' ' :: entry
    else given

/-- The assignees of a step's task: a named user who is not on the board is left out. -/
def assigneesFor (starter : Uid) (board : Board) : Assign → List Uid
  | .starter => [starter]
  | .users uids => uids.filter board.isMember
  | .nobody => []

/-- The task a step makes, as the daemon creates it. The group sheet is the run's to print; a single
task cannot act on that rule and does not carry it. -/
def draftFor (step : Step) (starter : Uid) (board : Board) (startAt : Option Instant)
    (dependsOn : List TaskId) (entry : Option Text) : TaskDraft where
  title := fill step entry (trim step.title)
  description := fill step entry step.description
  startAt := startAt
  dueAt := none
  reminderStartMinutes := none
  reminderDueMinutes := none
  assignees := assigneesFor starter board step.assign
  dependsOn := dependsOn
  checklist := step.checklist.map fun item ↦ ⟨item.text, false⟩
  repeats := none
  printRules := step.print.filter fun rule ↦ rule.slip != .sheet
  autoStart := step.autoStart

end Taskologic.Core
