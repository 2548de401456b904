import Taskologic.Daemon.OverRuns

/-!
# A run closes when nothing of it is open

A run is finished by the section that finishes or deletes its root by hand, or by the engine. The engine closes a run
when, after the event it was told of, every task the root waits for is done and no question is left, and when it makes
no task the root would wait for (`open_of_finishRoot`). What a plan does besides leaves it so (`carryOut_closes`), and
so the run is found like that when the section is over, whatever the other jobs do in between (`run_closes_properly`).

What is done is a matter of the finished column, and that is the one of the board the section was carried out with.
-/

set_option autoImplicit false
set_option relaxedAutoImplicit false

namespace Taskologic.Daemon

open Taskologic.Core Taskologic.Library

/-! ### What the engine has seen -/

/-- The engine closes a run only when the event leaves no task of it open, and makes none that counts. -/
theorem open_of_finishRoot {steps : List Step} {tasks : List StepTask} {started : Bool} {event : RunEvent}
    {now : Instant} {zone : Zone} (h : (react steps tasks started event now zone).finishRoot = true) :
    ∃ firing, fire steps tasks event = some firing ∧
      (∀ t ∈ tasks, openAfter event firing t = false) ∧
      (∀ c ∈ (react steps tasks started event now zone).create, c.counts = false) ∧
      (react steps tasks started event now zone).ask = firing.ask ∧
      (react steps tasks started event now zone).answered = firing.answered := by
  cases hfire : fire steps tasks event with
  | none =>
    rw [react_of_end hfire] at h
    cases h
  | some firing =>
    rw [react_of_fire hfire] at h ⊢
    simp only [finishesRoot, Bool.and_eq_true, Bool.not_eq_true', List.any_eq_false, List.all_eq_true,
      Bool.not_eq_true] at h
    obtain ⟨⟨⟨-, hopen⟩, -⟩, hcounts⟩ := h
    exact ⟨firing, rfl, hopen, hcounts, rfl, rfl⟩

/-! ### Runs that are not finished -/

/-- The run is stored and has not finished. -/
def Store.Unfinished (s : Store) (run : RunId) : Prop := ∃ r ∈ s.runs, r.id = run ∧ r.finishedAt = none

/-- The run is stored and has finished. -/
def Store.Finished (s : Store) (run : RunId) : Prop := ∃ r ∈ s.runs, r.id = run ∧ r.finishedAt ≠ none

instance (s : Store) (run : RunId) : Decidable (s.Unfinished run) :=
  inferInstanceAs (Decidable (∃ r ∈ s.runs, r.id = run ∧ r.finishedAt = none))

instance (s : Store) (run : RunId) : Decidable (s.Finished run) :=
  inferInstanceAs (Decidable (∃ r ∈ s.runs, r.id = run ∧ r.finishedAt ≠ none))

/-- No run of this id has finished, and none will be made. -/
structure Store.Unclosed (s : Store) (run : RunId) : Prop where
  known : run < s.nextRun
  unfinished : ∀ r ∈ s.runs, r.id = run → r.finishedAt = none

section Unclosed

variable {effect : Effect} {allowed : Effect → Prop} {s s' : Store} {run : RunId}

theorem Store.Unfinished.unclosed (h : s.Unfinished run) (hids : s.Numbered) : s.Unclosed run := by
  obtain ⟨r, hr, rfl, hfinished⟩ := h
  refine ⟨hids.runs.below r hr, fun other hother hid ↦ ?_⟩
  obtain rfl : other = r := List.inj_on_of_nodup_map hids.runs.keyed hother hr hid
  exact hfinished

theorem Store.Finished.not_unclosed (h : s.Finished run) : ¬ s.Unclosed run := by
  obtain ⟨r, hr, hid, hfinished⟩ := h
  exact fun hunclosed ↦ hfinished (hunclosed.unfinished r hr hid)

/-- Only its own end finishes a run. -/
theorem unclosed_change (h : Change effect s s') (hne : effect ≠ .finishRun run) (hs : s.Unclosed run) :
    s'.Unclosed run := by
  refine ⟨hs.known.trans_le (next_le_of_change h).1, fun r hr hid ↦ ?_⟩
  cases h with
  | aside hbeside => exact hs.unfinished r (hbeside.runs ▸ hr) hid
  | dropTasks gone => exact hs.unfinished r (List.mem_of_mem_filter hr) hid
  | dropBoard board =>
    obtain ⟨before, hbefore, rfl⟩ := List.mem_map.mp hr
    exact hs.unfinished before (List.mem_of_mem_filter (List.mem_of_mem_filter hbefore)) hid
  | addRun new link hnew hactive =>
    rcases List.mem_append.mp hr with hmem | hlast
    · exact hs.unfinished r hmem hid
    · obtain rfl := List.mem_singleton.mp hlast
      simp only [Run.isActive, Bool.and_eq_true, Option.isNone_iff_eq_none] at hactive
      exact hactive.1
  | importRun new hnew =>
    rcases List.mem_append.mp hr with hmem | hlast
    · exact hs.unfinished r hmem hid
    · obtain rfl := List.mem_singleton.mp hlast
      exact absurd hs.known (by rw [← hid, hnew]; exact Nat.lt_irrefl _)
  | startRun id now | cancelRun id now =>
    obtain ⟨before, hbefore, rfl⟩ := List.mem_map.mp hr
    split_ifs at hid ⊢ <;> exact hs.unfinished before hbefore hid
  | finishRun id now =>
    obtain ⟨before, hbefore, rfl⟩ := List.mem_map.mp hr
    split_ifs at hid ⊢ with hown
    · exact absurd (congrArg Effect.finishRun (hown.symm.trans hid)) hne
    · exact hs.unfinished before hbefore hid
  | editRuns f =>
    obtain ⟨before, hbefore, rfl⟩ := List.mem_map.mp hr
    exact hs.unfinished before hbefore hid
  | _ => exact hs.unfinished r hr hid

theorem unclosed_chain (h : Chain allowed s s') (hne : ¬ allowed (.finishRun run)) (hs : s.Unclosed run) :
    s'.Unclosed run :=
  h.keeps (fun _ _ _ hallowed hchange ↦ unclosed_change hchange fun hsame ↦ hne (hsame ▸ hallowed)) hs

end Unclosed

/-! ### Tasks the root waits for -/

/-- The root of the run waits for the task. -/
structure TaskLink.Awaited (run : RunId) (link : TaskLink) : Prop where
  own : link.run = run
  step : link.step ≠ rootKey
  counts : link.counts = true
  kept : link.skipped = false

/-- Whatever the root waits for is done, and its link is as it should be. -/
def Store.AllDone (s : Store) (board : Board) (run : RunId) (fits : TaskLink → Prop) : Prop :=
  ∀ link ∈ s.links, link.Awaited run → ∀ row, s.taskRow link.taskId = some row → row.isDone board = true ∧ fits link

/-- Whatever the root waits for is done, and no question is left. -/
def Store.NothingOpen (s : Store) (board : Board) (run : RunId) : Prop :=
  s.AllDone board run fun link ↦ link.pendingAnswer = false

section AllDone

variable {outside : Outside} {board : Board} {run : Run} {s s' : Store} {id : RunId} {fits : TaskLink → Prop}

namespace Store.AllDone

theorem aside (h : s.AllDone board id fits) (hbeside : Aside s s') : s'.AllDone board id fits := by
  unfold AllDone Store.taskRow at h ⊢
  rw [hbeside.links, hbeside.tasks]
  exact h

/-- Tasks that are done stay done. -/
theorem modifyTask (h : s.AllDone board id fits) (task : TaskId) {f : TaskRow → TaskRow}
    (hid : ∀ row, (f row).id = row.id) (hdone : ∀ row, row.isDone board = true → (f row).isDone board = true) :
    (s.modifyTask task f).AllDone board id fits := by
  intro link hlink hawaited row hrow
  rw [Store.taskRow_modifyTask _ _ hid] at hrow
  split_ifs at hrow with hsame
  · obtain ⟨before, hbefore, rfl⟩ := Option.map_eq_some_iff.mp hrow
    obtain ⟨hdoneBefore, hfits⟩ := h link hlink hawaited before hbefore
    exact ⟨hdone before hdoneBefore, hfits⟩
  · exact h link hlink hawaited row hrow

/-- Links that are changed are not waited for, or fit. -/
theorem modifyLink {fits' : TaskLink → Prop} (h : s.AllDone board id fits) (task : TaskId) {f : TaskLink → TaskLink}
    (hid : ∀ link, (f link).taskId = link.taskId)
    (hown : ∀ link, (f link).Awaited id → link.Awaited id)
    (hfits : ∀ link, fits link → link.taskId = task → fits' (f link))
    (hothers : ∀ link, fits link → link.taskId ≠ task → fits' link) :
    (s.modifyLink task f).AllDone board id fits' := by
  intro link hlink hawaited row hrow
  obtain ⟨before, hbefore, rfl⟩ := List.mem_map.mp hlink
  split_ifs at hawaited hrow ⊢ with hsame
  · rw [hid] at hrow
    obtain ⟨hdone, hfit⟩ := h before hbefore (hown before hawaited) row hrow
    exact ⟨hdone, hfits before hfit hsame⟩
  · obtain ⟨hdone, hfit⟩ := h before hbefore hawaited row hrow
    exact ⟨hdone, hothers before hfit hsame⟩

/-- A task that is new and does not count changes nothing. -/
theorem createStep {creation : Creation} {r : Creation × Task} (h : s.AllDone board id fits)
    (hcounts : creation.counts = false) (hrun : createStep outside board run creation s = .ok (r, s')) :
    s'.AllDone board id fits := by
  simp only [Daemon.createStep, Tx.bind_eq_ok, Tx.require_eq_ok, Prod.mk.injEq, hcounts, Bool.false_eq_true, if_false,
    Tx.pure_eq_ok, requireTask_eq_ok] at hrun
  obtain ⟨_, _, ⟨step, -, rfl, rfl⟩, task, made, hmade, _, linked, hlinked, _, _, ⟨_, -, -, rfl⟩, -,
    rfl⟩ := hrun
  obtain ⟨hnew, rfl⟩ := linkTask_spec hlinked
  obtain ⟨row, hid, -, -, -, hbeside, hfound⟩ := createTask_spec hmade
  have htask : task.id = row.id := Store.id_of_task hfound
  intro link hlink hawaited other hother
  rcases List.mem_append.mp hlink with hmem | hlast
  · have hne : link.taskId ≠ row.id := fun hsame ↦
      absurd (List.find?_eq_none.mp hnew link hmem) (by simp [newLink, htask, hsame])
    have hfoundBefore : s.taskRow link.taskId = some other := by
      unfold Store.taskRow at hother ⊢
      change made.tasks.find? _ = _ at hother
      rw [hbeside.tasks, Store.insertTask, List.find?_append] at hother
      rcases Option.or_eq_some_iff.mp hother with hearlier | ⟨-, hlater⟩
      · exact hearlier
      · obtain rfl := List.mem_singleton.mp (List.mem_of_find?_eq_some hlater)
        have hsame : other.id = link.taskId := by simpa using List.find?_some hlater
        exact absurd hsame.symm hne
    exact h link (hbeside.links ▸ hmem) hawaited other hfoundBefore
  · obtain rfl := List.mem_singleton.mp hlast
    exact absurd hawaited.counts (by simp [newLink])

end Store.AllDone

/-! ### A plan that closes its run -/

/-- The event has been written down: a finished task is done, a deleted one is skipped. -/
def EventSeen (s : Store) (board : Board) : RunEvent → Prop
  | .finished task _ => ∀ row, s.taskRow task = some row → row.isDone board = true
  | .deleted task => ∀ link ∈ s.links, link.taskId = task → link.skipped = true
  | .created | .rootStarted | .answered _ _ => True

/-- No question is left but the one the event answers, and none is asked. -/
def OwedBut (ask : Option TaskId) (answered : Option (TaskId × Text)) (link : TaskLink) : Prop :=
  (link.pendingAnswer = true → ∃ given ∈ answered, given.1 = link.taskId) ∧ ask ≠ some link.taskId

theorem mem_stepTasks {link : TaskLink} {row : TaskRow} (hlink : link ∈ s.links) (hrun : link.run = id)
    (hrow : s.taskRow link.taskId = some row) : stepTask board link (s.hydrate row) ∈ s.stepTasks board id := by
  refine List.mem_map.mpr ⟨(link, s.hydrate row), (List.perm_insertionSort _ _).mem_iff.mpr ?_, rfl⟩
  refine List.mem_filterMap.mpr ⟨link, List.mem_filter.mpr ⟨hlink, by simpa using hrun⟩, ?_⟩
  rw [Store.task, hrow]
  rfl

/-- What the engine has seen of the tasks, read off the store. -/
theorem allDone_of_open {event : RunEvent} {firing : Firing} (hevent : EventSeen s board event)
    (h : ∀ t ∈ s.stepTasks board id, openAfter event firing t = false) :
    s.AllDone board id (OwedBut firing.ask firing.answered) := by
  intro link hlink hawaited row hrow
  have hid : row.id = link.taskId := Store.id_of_taskRow hrow
  have hopen := h _ (mem_stepTasks hlink hawaited.own hrow)
  have hdeleted : event.deletes link.taskId = false := by
    cases event with
    | deleted task =>
      by_contra hsame
      have htask : task = link.taskId := by simpa [RunEvent.deletes] using hsame
      exact absurd (hevent link hlink htask.symm) (by simp [hawaited.kept])
    | _ => rfl
  have hfinished : event.finishes link.taskId = true → row.isDone board = true := by
    cases event with
    | finished task answer =>
      intro hsame
      obtain rfl : task = link.taskId := by simpa [RunEvent.finishes] using hsame
      exact hevent row hrow
    | _ => exact fun hnot ↦ Bool.noConfusion hnot
  have htask : (s.hydrate row).id = link.taskId := hid
  have hdone : (s.hydrate row).isDone board = row.isDone board := rfl
  simp only [openAfter, stepTask, htask, hdone, hdeleted, hawaited.kept, hawaited.counts, waiting, Bool.or_false,
    Bool.not_false, Bool.and_true, bne_iff_ne.mpr hawaited.step, Bool.true_and, Bool.or_eq_false_iff,
    Bool.not_eq_false', Bool.or_eq_true, Bool.and_eq_false_iff, beq_eq_false_iff_ne] at hopen
  obtain ⟨hover, howed, hask⟩ := hopen
  refine ⟨hover.elim (fun hrow ↦ hrow) hfinished, fun hpending ↦ ?_, hask⟩
  rcases howed with hnone | hgiven
  · exact absurd hpending (by simp [hnone])
  · obtain ⟨given, hmem, hsame⟩ := (Option.any_eq_true _ _).mp hgiven
    exact ⟨given, hmem, by simpa using hsame⟩

theorem Store.AllDone.bumpVersion (h : s.AllDone board id fits) (task : TaskId) :
    (s.bumpVersion task).AllDone board id fits :=
  h.modifyTask task (fun _ ↦ rfl) fun _ hdone ↦ hdone

theorem allDone_dateTask (task : TaskId) :
    Tx.Leads (fun t : Store ↦ t.AllDone board id fits) (dateTask outside board task)
      fun _ t ↦ t.AllDone board id fits := by
  intro t r t' ht hrun
  simp only [dateTask, Tx.bind_eq_ok, requireTask_eq_ok, Prod.mk.injEq] at hrun
  obtain ⟨loaded, _, ⟨_, -, -, rfl⟩, hrun⟩ := hrun
  split_ifs at hrun
  · simp only [setStartAt, Tx.bind_eq_ok, Tx.write_eq_ok, Prod.mk.injEq, requireTask_eq_ok, recordEvent_eq_ok,
      Tx.pure_eq_ok] at hrun
    obtain ⟨_, _, ⟨_, _, ⟨-, rfl⟩, _, -, -, rfl⟩, _, _, ⟨-, rfl⟩, -, rfl⟩ := hrun
    exact ht.modifyTask task (f := fun row ↦ { row with startAt := outside.now, version := row.version + 1 })
      (fun _ ↦ rfl) fun _ hdone ↦ hdone
  · obtain ⟨-, rfl⟩ := Prod.ext_iff.mp (Tx.pure_eq_ok.mp hrun)
    exact ht

/-- The question that is asked is of a task the root does not wait for. -/
theorem allDone_askQuestion {ask : Option TaskId} {answered : Option (TaskId × Text)} {r : Option Task}
    (h : s.AllDone board id (OwedBut ask answered)) (hrun : askQuestion ask s = .ok (r, s')) :
    s'.AllDone board id (OwedBut ask answered) := by
  cases ask with
  | none =>
    obtain ⟨-, rfl⟩ := Prod.ext_iff.mp (Tx.pure_eq_ok.mp hrun)
    exact h
  | some task =>
    simp only [askQuestion, setAsked, Tx.bind_eq_ok, Tx.write_eq_ok, Prod.mk.injEq, requireTask_eq_ok,
      Tx.pure_eq_ok] at hrun
    obtain ⟨_, _, ⟨-, rfl⟩, _, _, ⟨_, -, -, rfl⟩, -, rfl⟩ := hrun
    refine (h.modifyLink task (f := fun link ↦ { link with asked := true }) (fun _ ↦ rfl) (fun _ hown ↦ ?_)
      (fun link hfits hsame ↦ absurd (congrArg some hsame.symm) hfits.2) fun _ hfits _ ↦ hfits).bumpVersion task
    exact ⟨hown.1, hown.2, hown.3, hown.4⟩

/-- With the answer written down no question is left. -/
theorem nothingOpen_recordAnswer {ask : Option TaskId} {answered : Option (TaskId × Text)} {r : Option Task}
    (h : s.AllDone board id (OwedBut ask answered)) (hrun : recordAnswer outside board answered s = .ok (r, s')) :
    s'.NothingOpen board id := by
  cases answered with
  | none =>
    obtain ⟨-, rfl⟩ := Prod.ext_iff.mp (Tx.pure_eq_ok.mp hrun)
    intro link hlink hawaited row hrow
    obtain ⟨hdone, howed, -⟩ := h link hlink hawaited row hrow
    refine ⟨hdone, ?_⟩
    by_contra hpending
    obtain ⟨given, hmem, -⟩ := howed (by simpa using hpending)
    cases hmem
  | some given =>
    obtain ⟨task, answer⟩ := given
    simp only [recordAnswer, setAnswer, Tx.bind_eq_ok, Tx.write_eq_ok, Prod.mk.injEq, requireTask_eq_ok,
      recordEvent_eq_ok, Tx.pure_eq_ok] at hrun
    obtain ⟨_, _, ⟨-, rfl⟩, _, _, ⟨-, rfl⟩, _, _, ⟨_, -, -, rfl⟩, -, rfl⟩ := hrun
    have hanswered : (s.modifyLink task fun link ↦ { link with asked := true, answer := answer }).NothingOpen
        board id := by
      refine h.modifyLink task (fun _ ↦ rfl) (fun _ hown ↦ ⟨hown.1, hown.2, hown.3, hown.4⟩)
        (fun link _ _ ↦ by simp [TaskLink.pendingAnswer]) fun link hfits hother ↦ ?_
      by_contra hpending
      obtain ⟨given, hmem, hsame⟩ := hfits.1 (by simpa using hpending)
      cases hmem
      exact hother hsame.symm
    exact hanswered.bumpVersion task

/-- Up to closing, a plan that makes nothing that counts leaves done what is done, and settles the question. -/
theorem nothingOpen_built {plan : Plan} {s₁ s₂ s₃ s₄ s₅ : Store} {made : List (Creation × Task)}
    {prints : List (Uid × Sheet)} {dated : List (Option Task)} {asked answered : Option Task}
    (h : s.AllDone board id (OwedBut plan.ask plan.answered)) (hcounts : ∀ c ∈ plan.create, c.counts = false)
    (hmade : Tx.each (createStep outside board run) plan.create s = .ok (made, s₁))
    (hprints : printSheets board run plan.create (made.map Prod.snd) s₁ = .ok (prints, s₂))
    (hdated : Tx.each (dateTask outside board) plan.setStart s₂ = .ok (dated, s₃))
    (hasked : askQuestion plan.ask s₃ = .ok (asked, s₄))
    (hanswered : recordAnswer outside board plan.answered s₄ = .ok (answered, s₅)) : s₅.NothingOpen board id := by
  have hmakes (c : Creation) (hc : c ∈ plan.create) :
      Tx.Leads (fun t : Store ↦ t.AllDone board id (OwedBut plan.ask plan.answered)) (createStep outside board run c)
        fun _ t ↦ t.AllDone board id (OwedBut plan.ask plan.answered) :=
    fun _ _ _ ht hrun ↦ ht.createStep (hcounts c hc) hrun
  have hprinted : Aside s₁ s₂ := by
    refine Chain.toAside (chain_printSheets ?_ _ _ _ _ _ _ hprints)
    rfl
  have hone := Tx.Leads.each hmakes _ _ _ h hmade
  have hthree := Tx.Leads.each (fun task _ ↦ allDone_dateTask task) _ _ _ (hone.aside hprinted) hdated
  exact nothingOpen_recordAnswer (allDone_askQuestion hthree hasked) hanswered

/-- The run has closed itself: nothing of it is open, and its root is in the finished column. -/
structure ClosedItself (board : Board) (run : RunId) (s : Store) : Prop where
  settled : s.NothingOpen board run
  root : ∃ r ∈ s.runs, r.id = run ∧ ∃ row, s.taskRow r.rootTask = some row ∧ row.columnId = board.finishedCol

/-- Closing moves the root and nothing else. -/
theorem closedItself_finishRoot {moved : Option Task} (hstored : run ∈ s.runs) (hnothing : s.NothingOpen board run.id)
    (h : finishRoot outside board run s = .ok (moved, s')) : s' = s ∨ ClosedItself board run.id s' := by
  obtain ⟨root, hroot, ⟨-, -, plan, p, between, hdestination, hbeside, rfl⟩ | ⟨-, rfl⟩⟩ := finishRoot_spec h
  · right
    have hmoved : (s.modifyTask run.rootTask (movedRow plan p)).NothingOpen board run.id :=
      hnothing.modifyTask run.rootTask (fun _ ↦ rfl) fun row _ ↦ by simp [movedRow, TaskRow.isDone, hdestination]
    have hbetween : between.NothingOpen board run.id := hmoved.aside hbeside
    refine ⟨hbetween, ?_⟩
    have hthere : run ∈ between.runs := hbeside.runs ▸ hstored
    refine ⟨_, List.mem_map_of_mem hthere, ?_⟩
    rw [if_pos rfl]
    refine ⟨rfl, movedRow plan p root.toTaskRow, ?_, hdestination⟩
    have hrow : (s.modifyTask run.rootTask (movedRow plan p)).taskRow run.rootTask =
        some (movedRow plan p root.toTaskRow) := by
      rw [Store.taskRow_modifyTask _ _ (f := movedRow plan p) fun _ ↦ rfl, if_pos rfl, Store.toTaskRow_of_task hroot, Option.map_some]
    change between.taskRow run.rootTask = _
    unfold Store.taskRow at hrow ⊢
    rw [hbeside.tasks, hrow]
  · exact .inl rfl

/-- A plan that finishes its run ends it, or lets it close itself. -/
theorem closes_carryOut {tasks : TaskId → Prop} {plan : Plan} {effects : Effects} (hplan : About tasks plan)
    (hengaged : Engaged run tasks s) (hunclosed : s.Unclosed run.id)
    (hopen : plan.finishRoot = true →
      s.AllDone board run.id (OwedBut plan.ask plan.answered) ∧ ∀ c ∈ plan.create, c.counts = false)
    (h : carryOut outside board run plan s = .ok (effects, s')) (hclosed : ¬ s'.Unclosed run.id) :
    plan.endRun = true ∨ ClosedItself board run.id s' := by
  obtain ⟨made, s₁, prints, s₂, dated, s₃, asked, s₄, answered, s₅, finished, s₆, hmade, hprints, hdated, hasked,
    hanswered, hfinished, rfl⟩ := carryOut_eq_ok h
  by_cases hend : plan.endRun = true
  · exact .inl hend
  rw [if_neg hend] at hclosed ⊢
  have hbuilt := chain_built hplan hengaged hmade hprints hdated hasked hanswered
  have hstill : s₅.Unclosed run.id := unclosed_chain hbuilt (fun hnot ↦ hnot) hunclosed
  split_ifs at hfinished with hfinish
  · obtain ⟨hdone, hcounts⟩ := hopen hfinish
    have hnothing := nothingOpen_built hdone hcounts hmade hprints hdated hasked hanswered
    rcases closedItself_finishRoot (hengaged.later hbuilt).stored hnothing hfinished with rfl | hitself
    · exact absurd hstill hclosed
    · exact .inr hitself
  · obtain ⟨-, rfl⟩ := Prod.ext_iff.mp (Tx.pure_eq_ok.mp hfinished)
    exact absurd hstill hclosed

/-- The task is the root of the run. -/
def Store.IsRoot (s : Store) (run : RunId) (task : TaskId) : Prop :=
  ∃ link ∈ s.links, link.taskId = task ∧ link.run = run ∧ link.step = rootKey

/-- The event is the end of the task. -/
def EventEnds (task : TaskId) (event : RunEvent) : Prop := event.finishes task = true ∨ event.deletes task = true

/-- An event that fires nothing is the end of the root. -/
theorem ends_of_fire {steps : List Step} {event : RunEvent} (h : fire steps (s.stepTasks board id) event = none) :
    ∃ task, s.IsRoot id task ∧ EventEnds task event := by
  have hroot {task : TaskId} {t : StepTask} (hstep : stepOf (s.stepTasks board id) task = some t)
      (hkey : t.step = rootKey) : s.IsRoot id task := by
    obtain ⟨hmem, rfl⟩ := taskId_of_stepOf hstep
    obtain ⟨⟨link, loaded⟩, hpair, rfl⟩ := List.mem_map.mp hmem
    obtain ⟨other, hother, hsome⟩ := List.mem_filterMap.mp ((List.perm_insertionSort _ _).mem_iff.mp hpair)
    obtain ⟨found, hfound, hsame⟩ := Option.map_eq_some_iff.mp hsome
    obtain ⟨rfl, rfl⟩ := Prod.ext_iff.mp hsame
    obtain ⟨hlink, hrun⟩ := List.mem_filter.mp hother
    exact ⟨_, hlink, (Store.id_of_task hfound).symm, by simpa using hrun, hkey⟩
  cases event with
  | created | rootStarted => cases h
  | finished task answer =>
    cases hstep : stepOf (s.stepTasks board id) task with
    | none => simp [fire, hstep] at h
    | some t =>
      simp only [fire, hstep, ite_eq_left_iff, reduceCtorEq, imp_false, not_not] at h
      exact ⟨task, hroot hstep h, .inl (by simp [RunEvent.finishes])⟩
  | answered task answer => cases hstep : stepOf (s.stepTasks board id) task <;> simp [fire, hstep] at h
  | deleted task =>
    cases hstep : stepOf (s.stepTasks board id) task with
    | none => simp [fire, hstep] at h
    | some t =>
      simp only [fire, hstep, ite_eq_left_iff, reduceCtorEq, imp_false, not_not] at h
      exact ⟨task, hroot hstep h, .inr (by simp [RunEvent.deletes])⟩

/-- A run told of an event is finished because that is the end of its root, or closes itself. -/
theorem closes_apply {event : RunEvent} {tz : Tz} {effects : Effects} (hstored : run ∈ s.runs)
    (hactive : run.isActive = true) (hevent : EventSeen s board event) (hunclosed : s.Unclosed id)
    (h : apply outside board run event tz s = .ok (effects, s')) (hclosed : ¬ s'.Unclosed id) :
    (∃ task, s.IsRoot id task ∧ EventEnds task event) ∨ ClosedItself board id s' := by
  have hown : id = run.id := by
    by_contra hother
    exact hclosed (unclosed_chain (chain_apply hstored hactive h) hother hunclosed)
  subst hown
  simp only [apply, Tx.bind_eq_ok, Tx.write_eq_ok, Tx.read_eq_ok, Prod.mk.injEq] at h
  obtain ⟨_, told, ⟨-, rfl⟩, _, _, ⟨rfl, rfl⟩, h⟩ := h
  have hends : ∀ plan : Plan, plan = Store.planFor { s with reactions := s.reactions ++ [⟨run.id, event⟩] } board run
      event outside.now (outside.zones tz) → plan.endRun = true → ∃ task, s.IsRoot run.id task ∧ EventEnds task event := by
    rintro plan rfl hend
    rw [Store.planFor, endRun_react, Option.isNone_iff_eq_none] at hend
    exact ends_of_fire hend
  refine (closes_carryOut (about_react _ _ _ _ _ _) ⟨?_, hactive, ?_⟩ ?_ (fun hfinish ↦ ?_) h hclosed).imp_left
    (hends _ rfl)
  · exact hstored
  · rintro task ⟨t, ht, rfl⟩
    exact link_of_mem_stepTasks ht
  · exact ⟨hunclosed.known, hunclosed.unfinished⟩
  · obtain ⟨firing, -, hopen, hcounts, hask, hanswered⟩ := open_of_finishRoot hfinish
    refine ⟨?_, hcounts⟩
    rw [hask, hanswered]
    have hseen : EventSeen { s with reactions := s.reactions ++ [⟨run.id, event⟩] } board event := by
      cases event <;> exact hevent
    exact allDone_of_open hseen hopen

/-! ### Moves, answers and deletions -/

/-- A run told of an event by a hook closes as it does when the engine is asked. -/
theorem closes_raise {other : RunId} {run : Run} {event : Option RunEvent} {effects : Effects}
    (hrun : s.run other = some run) (hactive : run.isActive = true)
    (hevent : ∀ e ∈ event, EventSeen s board e) (hunclosed : s.Unclosed id)
    (h : raise outside board other event s = .ok (effects, s')) (hclosed : ¬ s'.Unclosed id) :
    (∃ task, s.IsRoot id task ∧ ∃ e ∈ event, EventEnds task e) ∨ ClosedItself board id s' := by
  cases event with
  | none =>
    obtain ⟨-, rfl⟩ := Prod.ext_iff.mp (Tx.pure_eq_ok.mp h)
    exact absurd hunclosed hclosed
  | some event =>
    have hrest {t : Store} {r : Run} (hr : t.run other = some r) (hr' : r.isActive = true)
        (hlinks : t.links = s.links) (htasks : t.tasks = s.tasks) (ht : t.Unclosed id)
        (hok : (do
          let run ← requireRun other
          let tz ← Tx.read fun s : Store ↦ s.starterTz run.startedBy
          Daemon.apply outside board run event tz : Work Effects) t = .ok (effects, s')) :
        (∃ task, s.IsRoot id task ∧ ∃ e ∈ some event, EventEnds task e) ∨ ClosedItself board id s' := by
      simp only [Tx.bind_eq_ok, requireRun_eq_ok, Prod.mk.injEq, Tx.read_eq_ok] at hok
      obtain ⟨_, _, ⟨_, hfound, rfl, rfl⟩, _, _, ⟨rfl, rfl⟩, happly⟩ := hok
      obtain rfl := Option.some.inj (hr.symm.trans hfound)
      have hseen : EventSeen t board event := by
        have hbefore := hevent event rfl
        cases event with
        | finished task answer =>
          intro row hrow
          refine hbefore row ?_
          unfold Store.taskRow at hrow ⊢
          rw [← hrow, htasks]
        | deleted task => exact fun link hlink ↦ hbefore link (hlinks ▸ hlink)
        | _ => trivial
      refine (closes_apply (mem_of_run hr).1 hr' hseen ht happly hclosed).imp_left ?_
      rintro ⟨task, ⟨link, hlink, hown⟩, hends⟩
      exact ⟨task, ⟨link, hlinks ▸ hlink, hown⟩, event, rfl, hends⟩
    simp only [raise] at h
    split_ifs at h with hroot
    · rw [startRun, Tx.bind_eq_ok] at h
      obtain ⟨_, _, hwrite, h⟩ := h
      obtain ⟨-, rfl⟩ := Prod.ext_iff.mp (Tx.write_eq_ok.mp hwrite)
      have hfound : (s.modifyRun other fun r ↦ { r with startedAt := r.startedAt.or (some outside.now) }).run other =
          some { run with startedAt := run.startedAt.or (some outside.now) } := by
        refine Eq.trans (run_modifyRun other other fun _ ↦ rfl) ?_
        rw [if_pos rfl, hrun, Option.map_some]
      refine hrest hfound hactive rfl rfl ?_ h
      exact unclosed_change (.startRun other outside.now) (by simp) hunclosed
    · exact hrest hrun hactive rfl rfl hunclosed h

/-- A move tells its run that the root has started, or that the task is finished. -/
theorem moveEvent_cases {plan : MovePlan} {link : TaskLink} {task : TaskId} {answer : Option Text} {event : RunEvent}
    (h : event ∈ moveEvent board plan link run task answer) :
    event = .rootStarted ∨ plan.destination = board.finishedCol ∧ event = .finished task answer := by
  unfold moveEvent at h
  split_ifs at h with hstart hfinish
  · exact .inl (Option.some.inj h).symm
  · exact .inr ⟨hfinish, (Option.some.inj h).symm⟩
  · cases h

/-- Links keep what they are links of. -/
theorem isRoot_of_modifyLink {other task : TaskId} {f : TaskLink → TaskLink}
    (h : (s.modifyLink other f).IsRoot id task)
    (hf : ∀ link, (f link).taskId = link.taskId ∧ (f link).run = link.run ∧ (f link).step = link.step) :
    s.IsRoot id task := by
  obtain ⟨link, hlink, htask, hrun, hstep⟩ := h
  obtain ⟨before, hbefore, rfl⟩ := List.mem_map.mp hlink
  refine ⟨before, hbefore, ?_⟩
  split_ifs at htask hrun hstep
  · exact ⟨(hf before).1.symm.trans htask, (hf before).2.1.symm.trans hrun, (hf before).2.2.symm.trans hstep⟩
  · exact ⟨htask, hrun, hstep⟩

/-- A task that is dated stays in its column. -/
theorem column_of_dated {task : TaskId} {column : ColumnId}
    (h : Chain (fun effect ↦ effect = .aside ∨ effect = .date task) s s')
    (hs : ∀ row ∈ s.tasks, row.id = task → row.columnId = column) :
    ∀ row ∈ s'.tasks, row.id = task → row.columnId = column := by
  refine h.keeps (P := fun t ↦ ∀ row ∈ t.tasks, row.id = task → row.columnId = column) ?_ hs
  intro effect t t' hallowed hchange ht row hrow hid
  rcases task_before hchange hrow with ⟨before, hbefore, hsame, -, -, hcolumn | htaken⟩ | ⟨-, hadded⟩
  · exact hcolumn.trans (ht before hbefore (hsame.trans hid))
  · rcases htaken with htaken | htaken | ⟨_, -, -, -, htaken⟩ <;> rw [htaken] at hallowed <;> simp at hallowed
  · rw [hadded] at hallowed
    simp at hallowed

/-- The hook of a move closes a run whose root has been finished, or one that closes itself. -/
theorem closes_afterMove {task : Task} {plan : MovePlan} {answer : Option Text} {effects : Effects}
    (hids : s.Numbered) (hrow : s.taskRow task.id = some task.toTaskRow) (hplaced : task.columnId = plan.destination)
    (hunclosed : s.Unclosed id) (h : afterMove outside board task plan answer s = .ok (effects, s'))
    (hclosed : ¬ s'.Unclosed id) :
    (plan.destination = board.finishedCol ∧ s.IsRoot id task.id) ∨ ClosedItself board id s' := by
  simp only [afterMove, Tx.bind_eq_ok, Tx.read_eq_ok, Prod.mk.injEq] at h
  obtain ⟨_, _, ⟨rfl, rfl⟩, h⟩ := h
  cases hlink : Store.taskLink _ task.id with
  | none =>
    rw [hlink] at h
    obtain ⟨-, rfl⟩ := Prod.ext_iff.mp (Tx.pure_eq_ok.mp h)
    exact absurd hunclosed hclosed
  | some link =>
    rw [hlink] at h
    simp only [Tx.bind_eq_ok, requireRun_eq_ok, Prod.mk.injEq] at h
    obtain ⟨_, _, ⟨run, hrun, rfl, rfl⟩, h⟩ := h
    by_cases hover : run.isActive = false ∨ plan.source = plan.destination
    · rw [if_pos hover] at h
      obtain ⟨-, rfl⟩ := Prod.ext_iff.mp (Tx.pure_eq_ok.mp h)
      exact absurd hunclosed hclosed
    · rw [if_neg hover] at h
      have hactive : run.isActive = true := by simpa using (not_or.mp hover).1
      simp only [Tx.bind_eq_ok, setPausedAt, Tx.write_eq_ok, Prod.mk.injEq, Tx.pure_eq_ok] at h
      obtain ⟨_, dated, hdated, _, _, ⟨-, rfl⟩, _, _, hraise, -, rfl⟩ := h
      have hdating : Chain (fun effect ↦ effect = .aside ∨ effect = .date task.id) _ dated ∧
          dated.runs = Store.runs _ ∧ dated.links = Store.links _ :=
        chain_writeDue (.inl rfl) (.inr rfl) (activeTask_of_taskLink hlink hrun hactive) hdated
      obtain ⟨hchain, hruns, hlinks⟩ := hdating
      have hstill (pausedAt : Option Instant) :
          (dated.modifyLink task.id fun link ↦ { link with pausedAt }).run run.id = some run := by
        obtain ⟨-, hid⟩ := mem_of_run hrun
        unfold Store.run at hrun ⊢
        rw [hid, ← hrun, ← hruns]
        rfl
      have hopen : dated.Unclosed id := unclosed_chain hchain (by simp) hunclosed
      have hends := closes_raise (hstill _) hactive (fun event hevent ↦ ?_)
        (unclosed_change (change_setPausedAt _ _) (by simp) hopen) hraise hclosed
      · refine hends.imp_left ?_
        rintro ⟨other, hroot, event, hevent, hend⟩
        rcases moveEvent_cases hevent with rfl | ⟨hdestination, rfl⟩
        · exact absurd hend (by simp [EventEnds, RunEvent.finishes, RunEvent.deletes])
        · obtain rfl : task.id = other := by simpa [EventEnds, RunEvent.finishes, RunEvent.deletes] using hend
          obtain ⟨link, hlink, hown⟩ := isRoot_of_modifyLink hroot fun _ ↦ ⟨rfl, rfl, rfl⟩
          exact ⟨hdestination, link, hlinks ▸ hlink, hown⟩
      · rcases moveEvent_cases hevent with rfl | ⟨hdestination, rfl⟩
        · trivial
        · intro row hfound
          have hbefore (row : TaskRow) (hmem : row ∈ s.tasks) (hid : row.id = task.id) :
              row.columnId = plan.destination := by
            obtain rfl : row = task.toTaskRow :=
              List.inj_on_of_nodup_map hids.tasks.keyed hmem (List.mem_of_find?_eq_some hrow) hid
            exact hplaced
          have hthere := column_of_dated hchain hbefore row (List.mem_of_find?_eq_some hfound)
            (Store.id_of_taskRow hfound)
          simp [TaskRow.isDone, hthere, hdestination]

theorem closes_afterDelete {task : Task} {effects : Effects} (hunclosed : s.Unclosed id)
    (h : afterDelete outside board task s = .ok (effects, s')) (hclosed : ¬ s'.Unclosed id) :
    s.IsRoot id task.id ∨ ClosedItself board id s' := by
  simp only [afterDelete, Tx.bind_eq_ok, Tx.read_eq_ok, Prod.mk.injEq] at h
  obtain ⟨_, _, ⟨rfl, rfl⟩, h⟩ := h
  cases hlink : Store.taskLink _ task.id with
  | none =>
    rw [hlink] at h
    obtain ⟨-, rfl⟩ := Prod.ext_iff.mp (Tx.pure_eq_ok.mp h)
    exact absurd hunclosed hclosed
  | some link =>
    rw [hlink] at h
    simp only [Tx.bind_eq_ok, requireRun_eq_ok, Prod.mk.injEq] at h
    obtain ⟨_, _, ⟨run, hrun, rfl, rfl⟩, h⟩ := h
    split_ifs at h with hover
    · obtain ⟨-, rfl⟩ := Prod.ext_iff.mp (Tx.pure_eq_ok.mp h)
      exact absurd hunclosed hclosed
    · simp only [Tx.bind_eq_ok, setSkipped, Tx.write_eq_ok, Prod.mk.injEq, Tx.read_eq_ok] at h
      obtain ⟨_, _, ⟨-, rfl⟩, _, _, ⟨rfl, rfl⟩, happly⟩ := h
      have hactive : run.isActive = true := by simpa using hover
      have hopen := unclosed_change (change_setSkipped task.id true) (by simp) hunclosed
      refine (closes_apply ?_ hactive ?_ hopen happly hclosed).imp_left ?_
      · exact (mem_of_run hrun).1
      · intro link hlink htask
        obtain ⟨before, -, rfl⟩ := List.mem_map.mp hlink
        split_ifs at htask ⊢
        · rfl
        · contradiction
      · rintro ⟨other, hroot, hend⟩
        obtain rfl : task.id = other := by simpa [EventEnds, RunEvent.finishes, RunEvent.deletes] using hend
        exact isRoot_of_modifyLink hroot fun _ ↦ ⟨rfl, rfl, rfl⟩

/-- A move closes a run whose root it finishes, or one that closes itself. -/
theorem closes_moveTaskBy {actor : Option Uid} {task moved : Task} {destination : ColumnId} {position : Option ℤ}
    {overrideDeps : Bool} {answer : Option Text} (hids : s.Numbered) (hunclosed : s.Unclosed id)
    (h : moveTaskBy outside actor board task destination position overrideDeps answer s = .ok (moved, s'))
    (hclosed : ¬ s'.Unclosed id) :
    (destination = board.finishedCol ∧ s.IsRoot id task.id) ∨ ClosedItself board id s' := by
  obtain ⟨plan, p, between, loaded, effects, -, hdestination, hbeside, hloaded, hid, hafter⟩ := moveTaskBy_spec h
  have hput := Change.place (s := s) task.id plan.destination (movedRow plan p) (fun _ ↦ rfl) (fun _ ↦ rfl)
    (fun _ ↦ rfl) fun _ ↦ ⟨rfl, rfl⟩
  have hbetween : between.Numbered := (hids.change hput).change (.aside hbeside)
  have hopen : between.Unclosed id :=
    unclosed_change (.aside hbeside) (by simp) (unclosed_change hput (by simp) hunclosed)
  have hplaced : loaded.columnId = plan.destination := by
    unfold Store.taskRow at hloaded
    rw [hbeside.tasks] at hloaded
    obtain ⟨before, -, hrow⟩ := List.mem_map.mp (List.mem_of_find?_eq_some hloaded)
    split_ifs at hrow with hsame
    · exact (congrArg TaskRow.columnId hrow).symm
    · exact absurd ((congrArg TaskRow.id hrow).trans hid) hsame
  rcases closes_afterMove hbetween (hid ▸ hloaded) hplaced hopen hafter hclosed with ⟨hfinish, hroot⟩ | hitself
  · obtain ⟨link, hlink, htask, hown⟩ := hroot
    exact .inl ⟨hdestination.symm.trans hfinish, link, hbeside.links ▸ hlink, htask.trans hid, hown⟩
  · exact .inr hitself

theorem closes_deleteTask {actor : Uid} {task deleted : Task} (hunclosed : s.Unclosed id)
    (h : deleteTask outside actor board task s = .ok (deleted, s')) (hclosed : ¬ s'.Unclosed id) :
    s.IsRoot id task.id ∨ ClosedItself board id s' := by
  rw [deleteTask, Tx.bind_eq_ok] at h
  obtain ⟨gone, between, hgone, h⟩ := h
  simp only [softDeleteTask, Tx.bind_eq_ok, Tx.write_eq_ok, Prod.mk.injEq, requireTask_eq_ok] at hgone
  obtain ⟨_, _, ⟨-, rfl⟩, _, _, ⟨-, rfl⟩, _, hfound, rfl, rfl⟩ := hgone
  simp only [Tx.bind_eq_ok, recordEvent_eq_ok, Prod.mk.injEq, Tx.pure_eq_ok] at h
  obtain ⟨_, _, ⟨-, rfl⟩, _, _, htold, -, rfl⟩ := h
  rw [← Store.id_of_task hfound]
  refine (closes_afterDelete ?_ htold hclosed).imp_left fun hroot ↦ ?_
  · exact ⟨hunclosed.known, hunclosed.unfinished⟩
  · exact hroot

/-- An answer closes only a run that closes itself. -/
theorem closes_giveAnswer {task answered : Task} {answer : Text} (hunclosed : s.Unclosed id)
    (h : giveAnswer outside board task answer s = .ok (answered, s')) (hclosed : ¬ s'.Unclosed id) :
    ClosedItself board id s' := by
  simp only [giveAnswer, Tx.bind_eq_ok, requireTask_eq_ok, Prod.mk.injEq] at h
  obtain ⟨effects, _, h, _, -, -, rfl⟩ := h
  simp only [answerTask, Tx.bind_eq_ok, Tx.read_eq_ok, Tx.require_eq_ok, requireRun_eq_ok, Tx.check_eq_ok,
    Prod.mk.injEq] at h
  obtain ⟨_, _, ⟨rfl, rfl⟩, link, _, ⟨_, hlink, rfl, rfl⟩, _, _, ⟨_, -, rfl, rfl⟩, _, _, ⟨run, hrun, rfl, rfl⟩, _, _,
    ⟨hactive, -, rfl⟩, _, _, ⟨-, -, rfl⟩, _, _, ⟨canonical, -, rfl, rfl⟩, _, _, ⟨rfl, rfl⟩, happly⟩ := h
  have hseen : EventSeen s board (.answered task.id canonical) := trivial
  rcases closes_apply (mem_of_run hrun).1 hactive hseen hunclosed happly hclosed with ⟨other, -, hend⟩ | hitself
  · exact absurd hend (by simp [EventEnds, RunEvent.finishes, RunEvent.deletes])
  · exact hitself

end AllDone

/-! ### Sections -/

/-- The task somebody finishes or deletes with the update. -/
def Update.ends {α : Type} : Update α → Option TaskId
  | .moveTaskBy _ board task destination _ _ _ => if destination = board.finishedCol then some task.id else none
  | .deleteTask _ _ task => some task.id
  | _ => none

/-- The board the update is made with, if the update tells runs of anything. -/
def Update.toldOn {α : Type} : Update α → Option Board
  | .moveTaskBy _ board _ _ _ _ _ | .deleteTask _ board _ | .giveAnswer board _ _ => some board
  | _ => none

def Section.ends {α : Type} : Section α → Option TaskId
  | .read _ => none
  | .write update => update.ends

def Section.toldOn {α : Type} : Section α → Option Board
  | .read _ => none
  | .write update => update.toldOn

/-- An update that finishes a run finishes or deletes its root, or the run closes itself. -/
theorem closes_update {α : Type} {update : Update α} {outside : Outside} {a : α} {s s' : Store} {run : RunId}
    (hids : s.Numbered) (hunclosed : s.Unclosed run) (h : update.work outside s = .ok (a, s'))
    (hclosed : ¬ s'.Unclosed run) :
    (∃ task, update.ends = some task ∧ s.IsRoot run task) ∨
      ∃ board, update.toldOn = some board ∧ ClosedItself board run s' := by
  have hkept (hnot : ¬ update.Allows s (.finishRun run)) : s'.Unclosed run :=
    unclosed_chain (chain_update hids h) hnot hunclosed
  cases update with
  | moveTaskBy actor board task destination position overrideDeps answer =>
    rcases closes_moveTaskBy hids hunclosed h hclosed with ⟨hfinish, hroot⟩ | hitself
    · exact .inl ⟨task.id, if_pos hfinish, hroot⟩
    · exact .inr ⟨board, rfl, hitself⟩
  | deleteTask actor board task =>
    exact (closes_deleteTask hunclosed h hclosed).imp (fun hroot ↦ ⟨task.id, rfl, hroot⟩)
      fun hitself ↦ ⟨board, rfl, hitself⟩
  | giveAnswer board task answer => exact .inr ⟨board, rfl, closes_giveAnswer hunclosed h hclosed⟩
  | startProgram actor board program column startAt fanOut =>
    refine absurd (hkept ?_) hclosed
    rintro ⟨new, hnew, rfl⟩
    exact absurd hunclosed.known (Nat.not_lt.mpr hnew)
  | _ => exact absurd (hkept fun hnot ↦ hnot.elim) hclosed

/-- Whatever the jobs are and in whatever order their sections run: a section that finishes a run is one in which
somebody finishes or deletes the root of the run, or when it is over the run's root is in the finished column of the
board the section was carried out with, every other task of the run that counts and was not deleted is there too or
archived, and none of them has a question left. -/
theorem run_closes_properly (jobs : List Job) (schedule : List (ℕ × Outside)) (run : RunId) :
    ∀ h ∈ (serve Store.empty jobs).log semantics schedule, h.before.Unfinished run → (h.after semantics).Finished run →
      (∃ task, h.body.ends = some task ∧ h.before.IsRoot run task) ∨
        ∃ board, h.body.toldOn = some board ∧ ClosedItself board run (h.after semantics) := by
  have htrail : Pool.Trail semantics Store.empty ((serve Store.empty jobs).log semantics schedule)
      ((serve Store.empty jobs).play semantics schedule).state :=
    Pool.trail_log (serve Store.empty jobs) schedule
  refine (htrail.forall_mem (I := Store.Numbered) (fun h hids ↦ ⟨numbered_section h.body h.input hids, ?_⟩)
    Store.Numbered.empty).1
  intro hunfinished hfinished
  obtain ⟨body, outside, s⟩ := h
  have hunclosed : s.Unclosed run := hunfinished.unclosed hids
  cases body with
  | read query =>
    change (semantics.run (.read query) outside s).2.Finished run at hfinished
    rw [snd_run_read] at hfinished
    exact absurd hunclosed hfinished.not_unclosed
  | write update =>
    rcases snd_commit (update.work outside) s with hsame | ⟨a, hrun⟩
    · change (commit (update.work outside) s).2.Finished run at hfinished
      rw [hsame] at hfinished
      exact absurd hunclosed hfinished.not_unclosed
    · exact closes_update hids hunclosed hrun hfinished.not_unclosed

/-- The root is started and the two steps are finished, one after the other. -/
def washFinished : List Job :=
  washDay.take 4 ++ [.request ⟨1, false⟩ (.moveTask 1 2 none false none),
    .request ⟨1, false⟩ (.moveTask 2 4 none false none), .request ⟨1, false⟩ (.moveTask 3 4 none false none)]

/-- The section that finishes the second step. -/
def washClosing : Happened :=
  ((serve Store.empty washFinished).log semantics (turnsFrom 0 7)).get ⟨15, by decide +kernel⟩

theorem washClosing_proper :
    washClosing.before.Unfinished 1 ∧ (washClosing.after semantics).Finished 1 ∧
      ((∃ task, washClosing.body.ends = some task ∧ washClosing.before.IsRoot 1 task) ∨
        ∃ board, washClosing.body.toldOn = some board ∧ ClosedItself board 1 (washClosing.after semantics)) :=
  have hunfinished : washClosing.before.Unfinished 1 := by decide +kernel
  have hfinished : (washClosing.after semantics).Finished 1 := by decide +kernel
  ⟨hunfinished, hfinished,
    run_closes_properly washFinished (turnsFrom 0 7) 1 washClosing (List.get_mem _ _) hunfinished hfinished⟩

end Taskologic.Daemon
