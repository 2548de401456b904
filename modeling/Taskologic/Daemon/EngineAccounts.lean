import Taskologic.Daemon.Accounts

/-!
# What the engine may do to the store

While a plan is carried out the run it is of is stored and active, and the tasks the plan is about are its
own (`Engaged`). Under that the parts of `carryOut` are chains of changes the run may make, and so are the
whole of it, what comes of an event, and the hooks the handlers call: `chain_carryOut`, `chain_apply`,
`chain_afterMove`, `chain_afterDelete`, `chain_answerTask`.
-/

set_option autoImplicit false
set_option relaxedAutoImplicit false

namespace Taskologic.Daemon

open Taskologic.Core Taskologic.Library

/-! ### The tasks of a plan -/

/-- The tasks a plan dates, asks about or answers for are among some. -/
structure About (tasks : TaskId → Prop) (plan : Plan) : Prop where
  setStart : ∀ task ∈ plan.setStart, tasks task
  ask : ∀ task ∈ plan.ask, tasks task
  answered : ∀ given ∈ plan.answered, tasks given.1

theorem taskId_of_stepOf {tasks : List StepTask} {id : TaskId} {t : StepTask}
    (h : stepOf tasks id = some t) : t ∈ tasks ∧ t.taskId = id :=
  ⟨List.mem_of_find?_eq_some h, by simpa using List.find?_some h⟩

/-- What a finished task asks or answers is its own question. -/
theorem about_fireFinished (steps : List Step) (tasks : List StepTask) (t : StepTask) (task : TaskId)
    (answer : Option Text) :
    (∀ id ∈ (fireFinished steps tasks t task answer).ask, id = task) ∧
      ∀ given ∈ (fireFinished steps tasks t task answer).answered, given.1 = task := by
  cases hquestion : questionOf steps t.step with
  | none => simp [fireFinished, hquestion]
  | some question =>
    cases hgiven : (answer.or question.default).bind question.canonical with
    | none => simp [fireFinished, hquestion, hgiven]
    | some given => simp [fireFinished, hquestion, hgiven]

theorem about_fireAnswered (steps : List Step) (t : StepTask) (task : TaskId) (answer : Text) :
    (∀ id ∈ (fireAnswered steps t task answer).ask, id = task) ∧
      ∀ given ∈ (fireAnswered steps t task answer).answered, given.1 = task := by
  unfold fireAnswered
  cases (questionOf steps t.step).bind fun question ↦ question.canonical answer with
  | none => simp [Firing.nothing]
  | some given => simp

/-- What an event fires is about the task it happened to. -/
theorem about_fire {steps : List Step} {tasks : List StepTask} {event : RunEvent} {firing : Firing}
    (h : fire steps tasks event = some firing) :
    (∀ id ∈ firing.ask, ∃ t ∈ tasks, t.taskId = id) ∧
      ∀ given ∈ firing.answered, ∃ t ∈ tasks, t.taskId = given.1 := by
  cases event with
  | created =>
    obtain rfl := Option.some.inj h
    simp
  | rootStarted =>
    obtain rfl := Option.some.inj h
    simp
  | finished task answer =>
    cases hstep : stepOf tasks task with
    | none =>
      rw [fire, hstep] at h
      obtain rfl := Option.some.inj h
      simp [Firing.nothing]
    | some t =>
      obtain ⟨hmem, hid⟩ := taskId_of_stepOf hstep
      obtain ⟨hask, hanswered⟩ := about_fireFinished steps tasks t task answer
      simp only [fire, hstep] at h
      split_ifs at h
      obtain rfl := Option.some.inj h
      exact ⟨fun id hgiven ↦ ⟨t, hmem, hid.trans (hask id hgiven).symm⟩,
        fun given hgiven ↦ ⟨t, hmem, hid.trans (hanswered given hgiven).symm⟩⟩
  | answered task answer =>
    cases hstep : stepOf tasks task with
    | none =>
      rw [fire, hstep] at h
      obtain rfl := Option.some.inj h
      simp [Firing.nothing]
    | some t =>
      obtain ⟨hmem, hid⟩ := taskId_of_stepOf hstep
      obtain ⟨hask, hanswered⟩ := about_fireAnswered steps t task answer
      rw [fire, hstep] at h
      obtain rfl := Option.some.inj h
      exact ⟨fun id hgiven ↦ ⟨t, hmem, hid.trans (hask id hgiven).symm⟩,
        fun given hgiven ↦ ⟨t, hmem, hid.trans (hanswered given hgiven).symm⟩⟩
  | deleted task =>
    cases hstep : stepOf tasks task with
    | none =>
      rw [fire, hstep] at h
      obtain rfl := Option.some.inj h
      simp [Firing.nothing]
    | some t =>
      simp only [fire, hstep] at h
      split_ifs at h
      obtain rfl := Option.some.inj h
      simp [Firing.nothing]

/-- The plan of an event is about tasks of the run. -/
theorem about_react (steps : List Step) (tasks : List StepTask) (started : Bool) (event : RunEvent)
    (now : Instant) (zone : Zone) :
    About (fun task ↦ ∃ t ∈ tasks, t.taskId = task) (react steps tasks started event now zone) := by
  cases hfire : fire steps tasks event with
  | none =>
    rw [react_of_end hfire]
    exact ⟨by simp [Plan.default], by simp [Plan.default], by simp [Plan.default]⟩
  | some firing =>
    rw [react_of_fire hfire]
    obtain ⟨hask, hanswered⟩ := about_fire hfire
    refine ⟨fun task htask ↦ ?_, hask, hanswered⟩
    simp only at htask
    split_ifs at htask with hstarted
    · obtain ⟨t, ht, rfl⟩ := List.mem_map.mp htask
      exact ⟨t, List.mem_of_mem_filter ht, rfl⟩
    · cases htask

/-- What the engine sees of a run are tasks linked to it. -/
theorem link_of_mem_stepTasks {s : Store} {board : Board} {run : RunId} {t : StepTask}
    (h : t ∈ s.stepTasks board run) : ∃ link ∈ s.links, link.taskId = t.taskId ∧ link.run = run := by
  obtain ⟨⟨link, task⟩, hmem, rfl⟩ := List.mem_map.mp h
  have hpair := (List.perm_insertionSort _ _).mem_iff.mp hmem
  obtain ⟨other, hlink, hsome⟩ := List.mem_filterMap.mp hpair
  obtain ⟨found, hfound, hsame⟩ := Option.map_eq_some_iff.mp hsome
  obtain ⟨rfl, rfl⟩ := Prod.ext_iff.mp hsame
  obtain ⟨hlinks, hrun⟩ := List.mem_filter.mp hlink
  exact ⟨_, hlinks, (Store.id_of_task hfound).symm, by simpa using hrun⟩

/-! ### A run at work -/

/-- The run is stored and active, and some tasks are its own. -/
structure Engaged (run : Run) (tasks : TaskId → Prop) (s : Store) : Prop where
  stored : run ∈ s.runs
  active : run.isActive = true
  own : ∀ task, tasks task → ∃ link ∈ s.links, link.taskId = task ∧ link.run = run.id

namespace Engaged

variable {run : Run} {tasks : TaskId → Prop} {s s' : Store}

theorem active_id (h : Engaged run tasks s) : s.Active run.id := ⟨run, h.stored, rfl, h.active⟩

theorem activeTask (h : Engaged run tasks s) {task : TaskId} (htask : tasks task) :
    s.ActiveTask task := by
  obtain ⟨link, hlink, hid, hrun⟩ := h.own task htask
  exact ⟨link, hlink, hid, hrun ▸ h.active_id⟩

/-- Links of the same run and task stay, however they change otherwise. -/
theorem of_links (h : Engaged run tasks s) (hruns : s'.runs = s.runs)
    (hlinks : ∀ link ∈ s.links, ∃ link' ∈ s'.links, link'.taskId = link.taskId ∧ link'.run = link.run) :
    Engaged run tasks s' := by
  refine ⟨hruns ▸ h.stored, h.active, fun task htask ↦ ?_⟩
  obtain ⟨link, hlink, hid, hrun⟩ := h.own task htask
  obtain ⟨link', hlink', hid', hrun'⟩ := hlinks link hlink
  exact ⟨link', hlink', hid'.trans hid, hrun'.trans hrun⟩

/-- What the run does itself does not end it. -/
theorem later (h : Engaged run tasks s) (hchain : Chain (Effect.Builds run.id) s s') :
    Engaged run tasks s' := by
  refine hchain.keeps (fun effect s s' hallowed hchange h ↦ ?_) h
  cases hchange with
  | aside hbeside => exact h.of_links hbeside.runs fun link hlink ↦ ⟨link, hbeside.links ▸ hlink, rfl, rfl⟩
  | addTask row => exact h.of_links rfl fun link hlink ↦ ⟨link, hlink, rfl, rfl⟩
  | editTasks f => exact h.of_links rfl fun link hlink ↦ ⟨link, hlink, rfl, rfl⟩
  | date task f => exact h.of_links rfl fun link hlink ↦ ⟨link, hlink, rfl, rfl⟩
  | addLink link =>
    exact h.of_links rfl fun other hother ↦ ⟨other, List.mem_append_left _ hother, rfl, rfl⟩
  | settle task f hf =>
    refine h.of_links rfl fun link hlink ↦ ⟨_, List.mem_map_of_mem hlink, ?_⟩
    split_ifs
    · exact ⟨(hf link).1, (hf link).2.1⟩
    · exact ⟨rfl, rfl⟩
  | _ => exact hallowed.elim

end Engaged

/-- Once the run is engaged, it does what it may. -/
def Works (run : Run) (tasks : TaskId → Prop) (s s' : Store) : Prop :=
  Engaged run tasks s → Chain (Effect.Builds run.id) s s'

instance (run : Run) (tasks : TaskId → Prop) : Std.Refl (Works run tasks) := ⟨fun _ _ ↦ .refl⟩

instance (run : Run) (tasks : TaskId → Prop) : IsTrans Store (Works run tasks) :=
  ⟨fun _ _ _ hone htwo h ↦ (hone h).trans (htwo (h.later (hone h)))⟩

section Parts

variable {run : Run} {tasks : TaskId → Prop} {α : Type} {work : Work α}

/-- What is a chain in any case. -/
theorem works_of_chain (h : Tx.Within (Chain (Effect.Builds run.id)) work) :
    Tx.Within (Works run tasks) work :=
  h.mono fun _ _ hchain _ ↦ hchain

theorem works_linkTask (link : TaskLink) (hrun : link.run = run.id) (hasked : link.asked = false)
    (hanswer : link.answer = none) : Tx.Within (Works run tasks) (linkTask link) := by
  intro s _ s' h hengaged
  simp only [linkTask, Tx.bind_eq_ok, demand_eq_ok, Tx.write_eq_ok, Prod.mk.injEq, Bool.and_eq_true,
    Option.isNone_iff_eq_none] at h
  obtain ⟨_, _, ⟨⟨⟨hnew, -⟩, -⟩, _, rfl⟩, _, rfl⟩ := h
  exact .single (.addLink link hnew (hrun ▸ hengaged.active_id) hasked hanswer) hrun

theorem chain_bumpVersion {allowed : Effect → Prop} (hedit : allowed .editTasks) (s : Store)
    (task : TaskId) : Chain allowed s (s.bumpVersion task) :=
  .single (change_modifyTask s task (fun _ ↦ rfl) (fun _ ↦ rfl) (fun _ ↦ rfl) fun _ ↦ ⟨rfl, rfl⟩) hedit

theorem chain_addDep {allowed : Effect → Prop} (haside : allowed .aside) (hedit : allowed .editTasks)
    (task dep : TaskId) : Tx.Within (Chain allowed) (addDep task dep) := by
  refine .bind (reads_demand _ _).within fun _ ↦ .write fun s ↦ ?_
  have hdep : Aside s { s with deps := insertNew s.deps (task, dep) } := rfl
  exact (Chain.single (.aside hdep) haside).trans (chain_bumpVersion hedit _ task)

theorem works_createStep (outside : Outside) (board : Board) (creation : Creation) :
    Tx.Within (Works run tasks) (createStep outside board run creation) := by
  refine .bind (.require _ _) fun step ↦
    .bind (works_of_chain (chain_createTask trivial trivial _ _ _ _ _ _)) fun task ↦
      .bind (works_linkTask _ rfl rfl rfl) fun _ ↦ ?_
  have hrest := Tx.Within.bind (R := Works run tasks) (reads_requireTask task.id).within fun task ↦
    Tx.Within.pure (creation, task)
  exact .ite (fun _ ↦ .bind (works_of_chain (chain_addDep trivial trivial _ _)) fun _ ↦ hrest)
    fun _ ↦ hrest

theorem chain_printSheets {allowed : Effect → Prop} (haside : allowed .aside) (board : Board)
    (create : List Creation) (created : List Task) :
    Tx.Within (Chain allowed) (printSheets board run create created) := by
  refine .bind (.each fun index _ ↦ .bind (.require _ _) fun step ↦ ?_) fun _ ↦ .pure _
  cases created.filter fun task ↦ task.program.any fun link ↦ link.step == step.key with
  | nil => exact .pure _
  | cons first rest =>
    refine .bind (reads_requireTask _).within fun root ↦ .bind (.each fun rule _ ↦ ?_) fun _ ↦ .pure _
    refine .each fun uid _ ↦ .bind (.read _) fun owed ↦ .ite (fun _ ↦ ?_) fun _ ↦ .pure _
    exact .bind (chain_aside haside fun _ ↦ rfl) fun _ ↦ .pure _

theorem works_dateTask (outside : Outside) (board : Board) {id : TaskId} (hid : tasks id) :
    Tx.Within (Works run tasks) (dateTask outside board id) := by
  refine .bind (reads_requireTask _).within fun task ↦ .ite (fun _ ↦ ?_) fun _ ↦ .pure _
  refine .bind ?_ fun dated ↦
    .bind (works_of_chain (chain_recordEvent trivial _ _ _ _ _)) fun _ ↦ .pure _
  refine .bind (.write fun s hengaged ↦ ?_) fun _ ↦ (reads_requireTask _).within
  exact .single (.date id _ (fun _ ↦ rfl) (fun _ ↦ rfl) (fun _ ↦ rfl) (hengaged.activeTask hid)) trivial

/-- A question of one of the run's tasks is asked or answered. -/
theorem works_settle {id : TaskId} (hid : tasks id) {f : TaskLink → TaskLink}
    (hf : ∀ link, (f link).taskId = link.taskId ∧ (f link).run = link.run ∧ (f link).step = link.step) :
    Tx.Within (Works run tasks) (Tx.write fun s ↦ (s.modifyLink id f).bumpVersion id : Work Unit) :=
  .write fun _ hengaged ↦ (Chain.single (.settle id f hf (hengaged.activeTask hid)) trivial).trans
    (chain_bumpVersion trivial _ id)

theorem works_askQuestion {ask : Option TaskId} (hask : ∀ task ∈ ask, tasks task) :
    Tx.Within (Works run tasks) (askQuestion ask) := by
  cases ask with
  | none => exact .pure _
  | some task =>
    exact .bind (works_settle (hask task rfl) fun _ ↦ ⟨rfl, rfl, rfl⟩) fun _ ↦
      .bind (reads_requireTask _).within fun _ ↦ .pure _

theorem works_recordAnswer (outside : Outside) (board : Board) {answered : Option (TaskId × Text)}
    (hanswered : ∀ given ∈ answered, tasks given.1) :
    Tx.Within (Works run tasks) (recordAnswer outside board answered) := by
  cases answered with
  | none => exact .pure _
  | some given =>
    exact .bind (works_settle (hanswered given rfl) fun _ ↦ ⟨rfl, rfl, rfl⟩) fun _ ↦
      .bind (works_of_chain (chain_recordEvent trivial _ _ _ _ _)) fun _ ↦
        .bind (reads_requireTask _).within fun _ ↦ .pure _

/-- What the run does to its root when it closes: a move, and its own end. -/
theorem finishRoot_spec {outside : Outside} {board : Board} {s s' : Store} {moved : Option Task}
    (h : finishRoot outside board run s = .ok (moved, s')) :
    ∃ root, s.task run.rootTask = some root ∧
      ((root.isArchived = false ∧ root.columnId ≠ board.finishedCol ∧
        ∃ plan p between, plan.destination = board.finishedCol ∧
          Aside (s.modifyTask run.rootTask (movedRow plan p)) between ∧
          s' = between.modifyRun run.id fun r ↦ { r with finishedAt := r.finishedAt.or outside.now }) ∨
      (¬ (root.isArchived = false ∧ root.columnId ≠ board.finishedCol) ∧ s' = s)) := by
  rw [finishRoot, Tx.bind_eq_ok] at h
  obtain ⟨root, _, hroot, h⟩ := h
  obtain ⟨_, hfound, hsame⟩ := requireTask_eq_ok.mp hroot
  obtain ⟨rfl, rfl⟩ := Prod.ext_iff.mp hsame
  refine ⟨_, hfound, ?_⟩
  split_ifs at h with hopen
  · obtain ⟨plan, _, hplan, h⟩ := Tx.bind_eq_ok.mp h
    obtain ⟨_, hplanned, hsame⟩ := Tx.lift_eq_ok.mp hplan
    obtain ⟨rfl, rfl⟩ := Prod.ext_iff.mp hsame
    obtain ⟨_, between, hmove, h⟩ := Tx.bind_eq_ok.mp h
    simp only [Tx.bind_eq_ok, finishRun, Tx.write_eq_ok, Prod.mk.injEq, Tx.pure_eq_ok] at h
    obtain ⟨_, _, ⟨_, rfl⟩, _, rfl⟩ := h
    obtain ⟨p, -, hbeside, -⟩ := applyMove_spec hmove
    rw [Store.id_of_task hfound] at hbeside
    have hdestination := congrArg MovePlan.destination
      (planMove_eq_ok.mp (mapError_eq_ok.mp hplanned)).2.2.2
    exact .inl ⟨hopen.1, hopen.2, _, p, between, hdestination, hbeside, rfl⟩
  · obtain ⟨-, rfl⟩ := Prod.ext_iff.mp (Tx.pure_eq_ok.mp h)
    exact .inr ⟨hopen, rfl⟩

/-- The run moves its root and is over. -/
theorem chain_finishRoot {allowed : Effect → Prop} (haside : allowed .aside) {board : Board}
    (hclose : allowed (.close run.id board.finishedCol)) (hfinish : allowed (.finishRun run.id))
    {outside : Outside} {s s' : Store} {moved : Option Task} (hstored : run ∈ s.runs)
    (hactive : run.isActive = true) (h : finishRoot outside board run s = .ok (moved, s')) :
    Chain allowed s s' := by
  obtain ⟨root, -, ⟨-, -, plan, p, between, hdestination, hbeside, rfl⟩ | ⟨-, rfl⟩⟩ := finishRoot_spec h
  · have hput := Change.close (s := s) run board.finishedCol (movedRow plan p) (fun _ ↦ rfl)
      (fun _ ↦ rfl) (fun _ ↦ hdestination) (fun _ ↦ ⟨rfl, rfl⟩) hstored hactive
    exact ((Chain.single hput hclose).trans (.single (.aside hbeside) haside)).trans
      (.single (.finishRun run.id outside.now) hfinish)
  · exact .refl

theorem carries_of_builds {finishedCol : ColumnId} {effect : Effect} (h : effect.Builds run.id) :
    effect.Carries run.id finishedCol := by
  cases effect <;> first | exact h | exact h.elim

/-- The end of a run by hand. -/
def Store.endRun (s : Store) (run : RunId) (now : Instant) : Store :=
  s.modifyRun run fun r ↦ { r with finishedAt := r.finishedAt.or now }

/-- Carrying out a plan is making its tasks, printing, dating, asking, answering and closing, one after
another. -/
theorem carryOut_eq_ok {outside : Outside} {board : Board} {plan : Plan} {s s' : Store}
    {effects : Effects} (h : carryOut outside board run plan s = .ok (effects, s')) :
    ∃ made s₁ prints s₂ dated s₃ asked s₄ answered s₅ finished s₆,
      Tx.each (createStep outside board run) plan.create s = .ok (made, s₁) ∧
      printSheets board run plan.create (made.map Prod.snd) s₁ = .ok (prints, s₂) ∧
      Tx.each (dateTask outside board) plan.setStart s₂ = .ok (dated, s₃) ∧
      askQuestion plan.ask s₃ = .ok (asked, s₄) ∧
      recordAnswer outside board plan.answered s₄ = .ok (answered, s₅) ∧
      (if plan.finishRoot then finishRoot outside board run else pure none) s₅ = .ok (finished, s₆) ∧
      s' = if plan.endRun then s₆.endRun run.id outside.now else s₆ := by
  rw [carryOut] at h
  obtain ⟨made, s₁, hmade, h⟩ := Tx.bind_eq_ok.mp h
  obtain ⟨prints, s₂, hprints, h⟩ := Tx.bind_eq_ok.mp h
  obtain ⟨dated, s₃, hdated, h⟩ := Tx.bind_eq_ok.mp h
  obtain ⟨asked, s₄, hasked, h⟩ := Tx.bind_eq_ok.mp h
  obtain ⟨answered, s₅, hanswered, h⟩ := Tx.bind_eq_ok.mp h
  obtain ⟨root, _, hroot, h⟩ := Tx.bind_eq_ok.mp h
  obtain rfl := reads_changedRoot _ _ _ _ _ hroot
  refine ⟨made, s₁, prints, s₂, dated, s₃, asked, s₄, answered, s₅, ?_⟩
  by_cases hfinish : plan.finishRoot = true
  · simp only [hfinish, if_true] at h ⊢
    obtain ⟨finished, s₆, hfinished, h⟩ := Tx.bind_eq_ok.mp h
    refine ⟨finished, s₆, hmade, hprints, hdated, hasked, hanswered, hfinished, ?_⟩
    split_ifs at h ⊢ with hend <;>
      simp only [finishRun, Tx.bind_eq_ok, Tx.write_eq_ok, Tx.pure_eq_ok, Prod.mk.injEq] at h
    · obtain ⟨_, _, ⟨-, rfl⟩, -, rfl⟩ := h
      rfl
    · exact h.2.symm
  · simp only [hfinish, if_false, Bool.false_eq_true] at h ⊢
    obtain ⟨finished, s₆, hfinished, h⟩ := Tx.bind_eq_ok.mp h
    refine ⟨finished, s₆, hmade, hprints, hdated, hasked, hanswered, hfinished, ?_⟩
    split_ifs at h ⊢ with hend <;>
      simp only [finishRun, Tx.bind_eq_ok, Tx.write_eq_ok, Tx.pure_eq_ok, Prod.mk.injEq] at h
    · obtain ⟨_, _, ⟨-, rfl⟩, -, rfl⟩ := h
      rfl
    · exact h.2.symm

/-- Up to closing, carrying out a plan about its own tasks a run only builds. -/
theorem chain_built {outside : Outside} {board : Board} {plan : Plan} {s s₁ s₂ s₃ s₄ s₅ : Store}
    {made : List (Creation × Task)} {prints : List (Uid × Sheet)} {dated : List (Option Task)}
    {asked answered : Option Task} (hplan : About tasks plan) (hengaged : Engaged run tasks s)
    (hmade : Tx.each (createStep outside board run) plan.create s = .ok (made, s₁))
    (hprints : printSheets board run plan.create (made.map Prod.snd) s₁ = .ok (prints, s₂))
    (hdated : Tx.each (dateTask outside board) plan.setStart s₂ = .ok (dated, s₃))
    (hasked : askQuestion plan.ask s₃ = .ok (asked, s₄))
    (hanswered : recordAnswer outside board plan.answered s₄ = .ok (answered, s₅)) :
    Chain (Effect.Builds run.id) s s₅ := by
  have hone : Works run tasks s s₁ :=
    Tx.Within.each (fun creation _ ↦ works_createStep outside board creation) _ _ _ hmade
  have htwo : Works run tasks s₁ s₂ :=
    works_of_chain (chain_printSheets trivial _ _ _) _ _ _ hprints
  have hthree : Works run tasks s₂ s₃ :=
    Tx.Within.each (fun id hid ↦ works_dateTask outside board (hplan.setStart id hid)) _ _ _ hdated
  have hfour : Works run tasks s₃ s₄ := works_askQuestion hplan.ask _ _ _ hasked
  have hfive : Works run tasks s₄ s₅ := works_recordAnswer outside board hplan.answered _ _ _ hanswered
  have hall : Works run tasks s s₅ := IsTrans.trans _ _ _ hone (IsTrans.trans _ _ _ htwo
    (IsTrans.trans _ _ _ hthree (IsTrans.trans _ _ _ hfour hfive)))
  exact hall hengaged

/-- Carrying out a plan about its own tasks, a run does what it may. -/
theorem chain_carryOut {outside : Outside} {board : Board} {plan : Plan} {s s' : Store}
    {effects : Effects} (hplan : About tasks plan) (hengaged : Engaged run tasks s)
    (h : carryOut outside board run plan s = .ok (effects, s')) :
    Chain (Effect.Carries run.id board.finishedCol) s s' := by
  obtain ⟨made, s₁, prints, s₂, dated, s₃, asked, s₄, answered, s₅, finished, s₆, hmade, hprints, hdated,
    hasked, hanswered, hfinished, rfl⟩ := carryOut_eq_ok h
  have hbuilt := chain_built hplan hengaged hmade hprints hdated hasked hanswered
  have hstill := hengaged.later hbuilt
  have hclosed : Chain (Effect.Carries run.id board.finishedCol) s₅ s₆ := by
    split_ifs at hfinished
    · refine chain_finishRoot ?_ ?_ ?_ hstill.stored hstill.active hfinished
      · trivial
      · exact ⟨rfl, rfl⟩
      · rfl
    · obtain ⟨-, rfl⟩ := Prod.ext_iff.mp (Tx.pure_eq_ok.mp hfinished)
      exact .refl
  refine ((hbuilt.mono fun _ ↦ carries_of_builds).trans hclosed).trans ?_
  split_ifs
  · exact .single (.finishRun run.id outside.now) rfl
  · exact .refl

end Parts

/-! ### The engine and its hooks -/

section Hooks

variable {run : Run} {outside : Outside} {board : Board} {s s' : Store}

theorem reacts_of_carries {id : RunId} {finishedCol : ColumnId} {event : RunEvent} {effect : Effect}
    (h : effect.Carries id finishedCol) : effect.Reacts id finishedCol event := by
  cases effect <;> first | exact h | exact h.elim

/-- Asked about an event, a run that reacts does what it may. -/
theorem chain_apply {event : RunEvent} {tz : Tz} {effects : Effects} (hstored : run ∈ s.runs)
    (hactive : run.isActive = true) (h : apply outside board run event tz s = .ok (effects, s')) :
    Chain (Effect.Reacts run.id board.finishedCol event) s s' := by
  simp only [apply, Tx.bind_eq_ok, Tx.write_eq_ok, Tx.read_eq_ok, Prod.mk.injEq] at h
  obtain ⟨_, _, ⟨-, rfl⟩, _, _, ⟨rfl, rfl⟩, h⟩ := h
  have htold : Chain (Effect.Reacts run.id board.finishedCol event) s
      { s with reactions := s.reactions ++ [⟨run.id, event⟩] } :=
    .single (.react run.id event ⟨run, hstored, rfl, hactive⟩) ⟨rfl, rfl⟩
  refine htold.trans ((chain_carryOut (about_react _ _ _ _ _ _) ⟨?_, hactive, ?_⟩ h).mono
    fun _ ↦ reacts_of_carries)
  · exact hstored
  · rintro task ⟨t, ht, rfl⟩
    exact link_of_mem_stepTasks ht

variable {allowed : Effect → Prop}

theorem reacts_of_builds {id : RunId} {finishedCol : ColumnId} {event : RunEvent} {effect : Effect}
    (h : effect.Builds id) : effect.Reacts id finishedCol event := by
  cases effect <;> first | exact h | exact h.elim

theorem mem_of_run {id : RunId} {run : Run} (h : s.run id = some run) : run ∈ s.runs ∧ run.id = id :=
  ⟨List.mem_of_find?_eq_some h, by simpa using List.find?_some h⟩

theorem mem_of_taskLink {task : TaskId} {link : TaskLink} (h : s.taskLink task = some link) :
    link ∈ s.links ∧ link.taskId = task :=
  ⟨List.mem_of_find?_eq_some h, by simpa using List.find?_some h⟩

theorem run_modifyRun (id other : RunId) {f : Run → Run} (hf : ∀ run, (f run).id = run.id) :
    (s.modifyRun id f).run other = if other = id then (s.run other).map f else s.run other :=
  find?_map_ite hf s.runs id other

theorem activeTask_of_taskLink {task : TaskId} {link : TaskLink} {run : Run} (hlink : s.taskLink task = some link)
    (hrun : s.run link.run = some run) (hactive : run.isActive = true) : s.ActiveTask task :=
  ⟨link, (mem_of_taskLink hlink).1, (mem_of_taskLink hlink).2, run, (mem_of_run hrun).1, (mem_of_run hrun).2, hactive⟩

/-- A run that is told of an event does what it may, and is started before if its root was. -/
theorem chain_raise (hreacts : ∀ run event effect, effect.Reacts run board.finishedCol event → allowed effect)
    (hstart : ∀ run, allowed (.startRun run)) {id : RunId} {event : Option RunEvent} {effects : Effects} {run : Run}
    (hrun : s.run id = some run) (hactive : run.isActive = true)
    (h : raise outside board id event s = .ok (effects, s')) : Chain allowed s s' := by
  cases event with
  | none =>
    obtain ⟨-, rfl⟩ := Prod.ext_iff.mp (Tx.pure_eq_ok.mp h)
    exact .refl
  | some event =>
    have hrest {t : Store} {r : Run} (hr : t.run id = some r) (hr' : r.isActive = true)
        (hok : (do
          let run ← requireRun id
          let tz ← Tx.read fun s : Store ↦ s.starterTz run.startedBy
          Daemon.apply outside board run event tz : Work Effects) t = .ok (effects, s')) : Chain allowed t s' := by
      simp only [Tx.bind_eq_ok, requireRun_eq_ok, Prod.mk.injEq, Tx.read_eq_ok] at hok
      obtain ⟨_, _, ⟨_, hfound, rfl, rfl⟩, _, _, ⟨rfl, rfl⟩, happly⟩ := hok
      obtain rfl := Option.some.inj (hr.symm.trans hfound)
      exact (chain_apply (mem_of_run hr).1 hr' happly).mono fun effect heffect ↦ hreacts _ _ _ heffect
    simp only [raise] at h
    split_ifs at h with hroot
    · rw [startRun, Tx.bind_eq_ok] at h
      obtain ⟨_, _, hwrite, h⟩ := h
      obtain ⟨-, rfl⟩ := Prod.ext_iff.mp (Tx.write_eq_ok.mp hwrite)
      have hfound : (s.modifyRun id fun r ↦ { r with startedAt := r.startedAt.or (some outside.now) }).run id =
          some { run with startedAt := run.startedAt.or (some outside.now) } := by
        refine Eq.trans (run_modifyRun id id fun _ ↦ rfl) ?_
        rw [if_pos rfl, hrun, Option.map_some]
      exact Chain.trans (.single (.startRun id outside.now) (hstart id)) (hrest hfound hactive h)
    · exact hrest hrun hactive h

theorem chain_writeDue (haside : allowed .aside) {task : Task} (hdate : allowed (.date task.id))
    {due : Option (Option Instant)} {r : Option Task} (hactive : s.ActiveTask task.id)
    (h : writeDue outside board task due s = .ok (r, s')) :
    Chain allowed s s' ∧ s'.runs = s.runs ∧ s'.links = s.links := by
  cases due with
  | none =>
    obtain ⟨-, rfl⟩ := Prod.ext_iff.mp (Tx.pure_eq_ok.mp h)
    exact ⟨.refl, rfl, rfl⟩
  | some due =>
    simp only [writeDue, setDueAt, Tx.bind_eq_ok, Tx.write_eq_ok, Prod.mk.injEq, requireTask_eq_ok, recordEvent_eq_ok,
      Tx.pure_eq_ok] at h
    obtain ⟨_, _, ⟨_, _, ⟨-, rfl⟩, _, -, -, rfl⟩, _, _, ⟨-, rfl⟩, -, rfl⟩ := h
    have hdated : Chain allowed s (s.modifyTask task.id fun row ↦
        { row with dueAt := due, version := row.version + 1 }) :=
      .single (.date task.id _ (fun _ ↦ rfl) (fun _ ↦ rfl) (fun _ ↦ rfl) hactive) hdate
    refine ⟨hdated.trans (.single (.aside ?_) haside), rfl, rfl⟩
    rfl

theorem change_setPausedAt (task : TaskId) (pausedAt : Option Instant) :
    Change (.note task) s (s.modifyLink task fun link ↦ { link with pausedAt }) :=
  .note task _ (fun _ ↦ ⟨rfl, rfl, rfl⟩) fun _ ↦ ⟨rfl, rfl⟩

theorem change_setSkipped (task : TaskId) (skipped : Bool) :
    Change (.note task) s (s.modifyLink task fun link ↦ { link with skipped }) :=
  .note task _ (fun _ ↦ ⟨rfl, rfl, rfl⟩) fun _ ↦ ⟨rfl, rfl⟩

/-- What the hook of a move may do. -/
theorem chain_afterMove {task : Task} {plan : MovePlan} {answer : Option Text} {effects : Effects}
    (hreacts : ∀ run event effect, effect.Reacts run board.finishedCol event → allowed effect)
    (hstart : ∀ run, allowed (.startRun run)) (hnote : allowed (.note task.id))
    (h : afterMove outside board task plan answer s = .ok (effects, s')) : Chain allowed s s' := by
  have hbuilds (effect : Effect) (heffect : effect.Builds 0) : allowed effect :=
    hreacts 0 .created effect (reacts_of_builds heffect)
  simp only [afterMove, Tx.bind_eq_ok, Tx.read_eq_ok, Prod.mk.injEq] at h
  obtain ⟨_, _, ⟨rfl, rfl⟩, h⟩ := h
  cases hlink : Store.taskLink _ task.id with
  | none =>
    rw [hlink] at h
    obtain ⟨-, rfl⟩ := Prod.ext_iff.mp (Tx.pure_eq_ok.mp h)
    exact .refl
  | some link =>
    rw [hlink] at h
    simp only [Tx.bind_eq_ok, requireRun_eq_ok, Prod.mk.injEq] at h
    obtain ⟨_, _, ⟨run, hrun, rfl, rfl⟩, h⟩ := h
    by_cases hover : run.isActive = false ∨ plan.source = plan.destination
    · rw [if_pos hover] at h
      obtain ⟨-, rfl⟩ := Prod.ext_iff.mp (Tx.pure_eq_ok.mp h)
      exact .refl
    · rw [if_neg hover] at h
      have hactive : run.isActive = true := by simpa using (not_or.mp hover).1
      simp only [Tx.bind_eq_ok, setPausedAt, Tx.write_eq_ok, Prod.mk.injEq, Tx.pure_eq_ok] at h
      obtain ⟨_, dated, hdated, _, _, ⟨-, rfl⟩, _, _, hraise, -, rfl⟩ := h
      obtain ⟨hchain, hruns, -⟩ := chain_writeDue (hbuilds .aside trivial) (hbuilds (.date _) trivial)
        (activeTask_of_taskLink hlink hrun hactive) hdated
      have hstill (pausedAt : Option Instant) :
          (dated.modifyLink task.id fun link ↦ { link with pausedAt }).run run.id = some run := by
        obtain ⟨-, hid⟩ := mem_of_run hrun
        unfold Store.run at hrun ⊢
        rw [hid, ← hrun, ← hruns]
        rfl
      exact (hchain.trans (.single (change_setPausedAt _ _) hnote)).trans
        (chain_raise hreacts hstart (hstill _) hactive hraise)

theorem chain_afterDelete {task : Task} {effects : Effects}
    (hreacts : ∀ run effect, effect.Reacts run board.finishedCol (.deleted task.id) → allowed effect)
    (hnote : allowed (.note task.id)) (h : afterDelete outside board task s = .ok (effects, s')) :
    Chain allowed s s' := by
  simp only [afterDelete, Tx.bind_eq_ok, Tx.read_eq_ok, Prod.mk.injEq] at h
  obtain ⟨_, _, ⟨rfl, rfl⟩, h⟩ := h
  cases hlink : Store.taskLink _ task.id with
  | none =>
    rw [hlink] at h
    obtain ⟨-, rfl⟩ := Prod.ext_iff.mp (Tx.pure_eq_ok.mp h)
    exact .refl
  | some link =>
    rw [hlink] at h
    simp only [Tx.bind_eq_ok, requireRun_eq_ok, Prod.mk.injEq] at h
    obtain ⟨_, _, ⟨run, hrun, rfl, rfl⟩, h⟩ := h
    split_ifs at h with hover
    · obtain ⟨-, rfl⟩ := Prod.ext_iff.mp (Tx.pure_eq_ok.mp h)
      exact .refl
    · simp only [Tx.bind_eq_ok, setSkipped, Tx.write_eq_ok, Prod.mk.injEq, Tx.read_eq_ok] at h
      obtain ⟨_, _, ⟨-, rfl⟩, _, _, ⟨rfl, rfl⟩, happly⟩ := h
      have hactive : run.isActive = true := by simpa using hover
      refine (Chain.single (change_setSkipped _ _) hnote).trans
        ((chain_apply ?_ hactive happly).mono fun effect heffect ↦ hreacts run.id effect heffect)
      exact (mem_of_run hrun).1

theorem chain_answerTask {task : Task} {answer : Text} {effects : Effects}
    (hreacts : ∀ run canonical effect, effect.Reacts run board.finishedCol (.answered task.id canonical) → allowed effect)
    (h : answerTask outside board task answer s = .ok (effects, s')) : Chain allowed s s' := by
  simp only [answerTask, Tx.bind_eq_ok, Tx.read_eq_ok, Tx.require_eq_ok, requireRun_eq_ok, Tx.check_eq_ok,
    Prod.mk.injEq] at h
  obtain ⟨_, _, ⟨rfl, rfl⟩, link, _, ⟨_, hlink, rfl, rfl⟩, _, _, ⟨_, -, rfl, rfl⟩, _, _, ⟨run, hrun, rfl, rfl⟩, _, _,
    ⟨hactive, -, rfl⟩, _, _, ⟨-, -, rfl⟩, _, _, ⟨canonical, -, rfl, rfl⟩, _, _, ⟨rfl, rfl⟩, happly⟩ := h
  exact (chain_apply (mem_of_run hrun).1 hactive happly).mono fun effect heffect ↦
    hreacts run.id canonical effect heffect

theorem chain_afterRestore (task : Task) (hnote : allowed (.note task.id)) :
    Tx.Within (Chain allowed) (afterRestore task) :=
  .bind (.read _) fun _ ↦ .ite (fun _ ↦ .write fun _ ↦ .single (change_setSkipped _ _) hnote) fun _ ↦ .pure _

end Hooks

/-! ### Moves -/

section Moves

variable {outside : Outside} {actor : Option Uid} {board : Board} {task moved : Task} {s s' : Store}
  {destination : ColumnId} {position : Option ℤ} {overrideDeps : Bool} {answer : Option Text}

theorem aside_noteMove {plan : MovePlan} {id : TaskId} {r : Unit}
    (h : noteMove outside actor board id plan s = .ok (r, s')) : Aside s s' := by
  unfold noteMove at h
  split_ifs at h
  · obtain ⟨-, rfl⟩ := Prod.ext_iff.mp (recordEvent_eq_ok.mp h)
    rfl
  · cases actor with
    | some uid =>
      obtain ⟨-, rfl⟩ := Prod.ext_iff.mp (Tx.write_eq_ok.mp h)
      rfl
    | none =>
      obtain ⟨-, rfl⟩ := Prod.ext_iff.mp (Tx.pure_eq_ok.mp h)
      rfl

/-- A move is the move of the row, something beside the rows, and the hook. -/
theorem moveTaskBy_spec
    (h : moveTaskBy outside actor board task destination position overrideDeps answer s = .ok (moved, s')) :
    ∃ plan p between loaded effects, plan.source = task.columnId ∧ plan.destination = destination ∧
      Aside (s.modifyTask task.id (movedRow plan p)) between ∧
      between.taskRow task.id = some loaded.toTaskRow ∧ loaded.id = task.id ∧
      afterMove outside board loaded plan answer between = .ok (effects, s') := by
  simp only [moveTaskBy, Tx.bind_eq_ok, Tx.read_eq_ok, Tx.lift_eq_ok, Prod.mk.injEq] at h
  obtain ⟨_, _, ⟨rfl, rfl⟩, _, _, ⟨plan, hplanned, rfl, rfl⟩, loaded, placed, hmove, _, noted, hnote, h⟩ := h
  have hplan := (planMove_eq_ok.mp (mapError_eq_ok.mp hplanned)).2.2.2
  obtain ⟨p, -, hbeside, hloaded⟩ := applyMove_spec hmove
  have hhook : ∃ between effects, Aside noted between ∧
      afterMove outside board loaded plan answer between = .ok (effects, s') := by
    split_ifs at h <;> simp only [Tx.bind_eq_ok, recordEvent_eq_ok, requireTask_eq_ok, Prod.mk.injEq] at h
    · obtain ⟨_, _, ⟨-, rfl⟩, effects, _, hafter, _, -, -, rfl⟩ := h
      refine ⟨_, effects, ?_, hafter⟩
      rfl
    · obtain ⟨effects, _, hafter, _, -, -, rfl⟩ := h
      exact ⟨noted, effects, rfl, hafter⟩
  obtain ⟨between, effects, hover, hafter⟩ := hhook
  have hbetween := (hbeside.trans (aside_noteMove hnote)).trans hover
  refine ⟨plan, p, between, loaded, effects, congrArg MovePlan.source hplan, congrArg MovePlan.destination hplan,
    hbetween, ?_, Store.id_of_task hloaded, hafter⟩
  have hrow := Store.toTaskRow_of_task hloaded
  unfold Store.taskRow at hrow ⊢
  rwa [hbetween.tasks, ← hbeside.tasks]

end Moves

end Taskologic.Daemon
