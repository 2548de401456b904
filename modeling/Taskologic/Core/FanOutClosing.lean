import Taskologic.Core.RunRows

/-!
# Closing a group

The tasks of one go at a step form a group. The module follows a run through the events of one group,
each task finished or deleted once, in any order. What the run fires at each event is a function of
the event and of whether it is the last (`firedBy_eq_firedAt`): a finish fires its answer, and the
last event, if it is a finish, also fires the end of the step. A deletion fires nothing, and in
particular not the end of the step when it is the last event of the group.

What a step makes over the events of a group depends only on how often it was fired
(`rounds_hits_perm`), so the order of events does not show in it unless it changes that number.

Scope. Only the events of the group happen; `RunState.after` is the run after them.
-/

set_option autoImplicit false
set_option relaxedAutoImplicit false

namespace Taskologic.Core

open Library

namespace RunState

/-! ### The group -/

/-- A group in a run: which rows it has, and which of them have been finished or deleted. -/
structure GroupAt (s : RunState) (key : Text) (iteration : ℕ) (ids closed : List TaskId) :
    Prop where
  member : ∀ row ∈ s.rows, (row.step = key ∧ row.iteration = iteration) ↔ row.taskId ∈ ids
  present : ∀ id ∈ ids, ∃ row ∈ s.rows, row.taskId = id
  done : ∀ row ∈ s.rows, row.taskId ∈ ids → (row.done = true ↔ row.taskId ∈ closed)
  skipped : ∀ row ∈ s.rows, row.taskId ∈ ids → row.skipped = true → row.taskId ∈ closed

/-- The row of a task that was made has the step, the iteration and the fresh id of its creation. -/
theorem exists_of_mem_made {zone : Zone} {s : RunState} {e : TaskEvent} {row : RunRow}
    (h : row ∈ (s.moved e).madeRows (s.planFor zone e)) :
    ∃ creation ∈ (s.planFor zone e).create, ∃ step, s.steps[creation.step]? = some step ∧
      step.isRoot = false ∧ row.step = step.key ∧ row.skipped = false ∧
      row.iteration = nextIteration (s.moved e).view step ∧ s.nextId ≤ row.taskId := by
  obtain ⟨creation, hcreation, id, hid, -, rfl⟩ := exists_of_mem_madeRows h
  rw [nextId_moved] at hid
  have hactive : s.active = true := by
    by_contra hover
    rw [planFor, if_neg hover] at hcreation
    cases hcreation
  have hmem := hcreation
  rw [planFor, if_pos hactive] at hmem
  obtain ⟨step, hstep, hroot, -, hiteration, -⟩ := step_of_mem_create hmem
  exact ⟨creation, hcreation, step, hstep, hroot, by simp [madeRow, hstep], rfl, hiteration, hid⟩

/-- Being asked does not change the goes at a step. -/
theorem iteration_view_moved (s : RunState) (e : TaskEvent) (key : Text) :
    (((s.moved e).view.filter fun t ↦ t.step == key).map StepTask.iteration) =
      ((s.rows.filter fun row ↦ row.step == key).map RunRow.iteration) := by
  have hkeep : ∀ row : RunRow,
      RunRow.view (if row.taskId = e.task then
        { row with done := true, skipped := row.skipped || (!e.isFinish && s.active) }
      else row) = { row.view with
        done := row.done || decide (row.taskId = e.task)
        skipped := row.skipped || (decide (row.taskId = e.task) && !e.isFinish && s.active) } := by
    intro row
    by_cases htask : row.taskId = e.task <;> simp [htask, RunRow.view, RunRow.pendingAnswer]
  simp only [view, rows_moved, List.map_map, Function.comp_def, hkeep, List.filter_map]
  rfl

theorem iteration_lt_of_made {zone : Zone} {s : RunState} {e : TaskEvent} {row old : RunRow}
    (hrow : row ∈ (s.moved e).madeRows (s.planFor zone e)) (hold : old ∈ s.rows)
    (hstep : old.step = row.step) : old.iteration < row.iteration := by
  obtain ⟨-, -, step, -, -, hkey, -, hiteration, -⟩ := exists_of_mem_made hrow
  have hmem : old.iteration ∈ (s.rows.filter fun r ↦ r.step == step.key).map RunRow.iteration :=
    List.mem_map_of_mem (List.mem_filter.mpr ⟨hold, by simp [hstep, hkey]⟩)
  rw [← iteration_view_moved s e] at hmem
  rw [hiteration, nextIteration, Nat.lt_succ_iff]
  exact List.le_max_of_le hmem le_rfl

/-- An event of the group closes its task and leaves the rest of the group as it is. -/
theorem GroupAt.next {zone : Zone} {s : RunState} {key : Text} {iteration : ℕ}
    {ids closed : List TaskId} (h : s.GroupAt key iteration ids closed) (hfresh : s.Fresh)
    (hroot : key ≠ rootKey) {e : TaskEvent} (he : e.task ∈ ids) :
    (s.next zone e).GroupAt key iteration ids (e.task :: closed) := by
  have hold : ∀ row ∈ (s.next zone e).rows,
      (∃ old ∈ s.rows, row = s.nextRow zone e old) ∨
        (row.taskId ∉ ids ∧ ¬ (row.step = key ∧ row.iteration = iteration)) := by
    intro row hrow
    rw [rows_next, List.mem_append, List.mem_map, List.mem_map] at hrow
    obtain ⟨old, hmem, rfl⟩ | ⟨made, hmade, rfl⟩ := hrow
    · exact .inl ⟨old, hmem, rfl⟩
    · right
      rw [(closeRow_fields _ made).1, (closeRow_fields _ made).2.1, (closeRow_fields _ made).2.2.1]
      obtain ⟨-, -, -, -, -, -, -, -, hid⟩ := exists_of_mem_made hmade
      refine ⟨fun hmem ↦ ?_, ?_⟩
      · obtain ⟨old, hold, hsame⟩ := h.present _ hmem
        exact absurd (hfresh.below old hold) (not_lt.mpr (hsame ▸ hid))
      · rintro ⟨hstep, hiteration⟩
        obtain ⟨old, hold, hsame⟩ := h.present _ he
        obtain ⟨hkey, hgo⟩ := (h.member old hold).mpr (hsame ▸ he)
        have hlt := iteration_lt_of_made hmade hold (hkey.trans hstep.symm)
        omega
  refine ⟨fun row hrow ↦ ?_, fun id hid ↦ ?_, fun row hrow hid ↦ ?_, fun row hrow hid hskip ↦ ?_⟩
  · obtain ⟨old, hmem, rfl⟩ | ⟨hnot, hgroup⟩ := hold row hrow
    · rw [(nextRow_fields zone s e old).1, (nextRow_fields zone s e old).2.1,
        (nextRow_fields zone s e old).2.2.1]
      exact h.member old hmem
    · exact iff_of_false hgroup hnot
  · obtain ⟨old, hmem, rfl⟩ := h.present id hid
    refine ⟨s.nextRow zone e old, ?_, (nextRow_fields zone s e old).1⟩
    rw [rows_next]
    exact List.mem_append_left _ (List.mem_map_of_mem hmem)
  · obtain ⟨old, hmem, rfl⟩ | ⟨hnot, -⟩ := hold row hrow
    · obtain ⟨hsame, -, -, -, -, hdone⟩ := nextRow_fields zone s e old
      rw [hsame] at hid ⊢
      have hnotroot : old.step ≠ rootKey := fun hr ↦ hroot (((h.member old hmem).mpr hid).1 ▸ hr)
      rw [hdone]
      simp [hnotroot, h.done old hmem hid, or_comm]
    · exact absurd hid hnot
  · obtain ⟨old, hmem, rfl⟩ | ⟨hnot, -⟩ := hold row hrow
    · obtain ⟨hsame, -, -, -, hskipped, -⟩ := nextRow_fields zone s e old
      rw [hsame] at hid ⊢
      rw [hskipped] at hskip
      simp only [Bool.or_eq_true, Bool.and_eq_true, decide_eq_true_eq] at hskip
      obtain hskip | ⟨⟨htask, -⟩, -⟩ := hskip
      · exact List.mem_cons_of_mem _ (h.skipped old hmem hid hskip)
      · rw [htask]
        exact List.mem_cons_self
    · exact absurd hid hnot

/-! ### What the run fires -/

/-- The answer an event comes with. -/
def TaskEvent.answer : TaskEvent → Option Text
  | .finished _ answer _ => answer
  | .deleted _ _ => none

/-- What an event fires. A run that is over fires nothing. -/
def firedBy (s : RunState) (e : TaskEvent) : List Trigger :=
  if s.active then (fire s.steps (s.moved e).view e.event).elim [] Firing.fired else []

/-- The answer a finished task of a step counts as given. -/
def givenBy (steps : List Step) (key : Text) (e : TaskEvent) : Option Text :=
  (questionOf steps key).bind fun question ↦
    (e.answer.or question.default).bind question.canonical

/-- What an event of a group fires: a finish fires the end of the step if the group is closed by it,
and the answer that came with it. -/
def firedAt (steps : List Step) (key : Text) (e : TaskEvent) (last : Bool) : List Trigger :=
  if e.isFinish then
    (if last then [.finished key] else []) ++ (givenBy steps key e).toList.map (.answered key)
  else []

theorem fired_fireFinished (steps : List Step) (tasks : List StepTask) (t : StepTask)
    (task : TaskId) (answer : Option Text) :
    (fireFinished steps tasks t task answer).fired =
      (if groupOpen tasks t then [] else [.finished t.step]) ++
        ((questionOf steps t.step).bind fun question ↦
          (answer.or question.default).bind question.canonical).toList.map (.answered t.step) := by
  unfold fireFinished
  cases questionOf steps t.step with
  | none => simp
  | some question =>
    cases hgiven : (answer.or question.default).bind question.canonical <;> simp [hgiven]

/-- Some other task of a group has not been finished or deleted yet. -/
def restOpen (ids closed : List TaskId) (task : TaskId) : Bool :=
  ids.any fun id ↦ decide (id ≠ task) && decide (id ∉ closed)

section Firing

variable {s : RunState} {key : Text} {iteration : ℕ} {ids closed : List TaskId} {e : TaskEvent}

/-- The task of an event, as the engine sees it when it is asked. -/
theorem exists_stepOf_moved (h : s.GroupAt key iteration ids closed) (hfresh : s.Fresh)
    (he : e.task ∈ ids) :
    ∃ t, stepOf (s.moved e).view e.task = some t ∧ t.taskId = e.task ∧ t.step = key ∧
      t.iteration = iteration := by
  obtain ⟨row, hrow, hid⟩ := h.present _ he
  obtain ⟨hkey, hgo⟩ := (h.member row hrow).mpr (hid ▸ he)
  have hkeyed : Keyed StepTask.taskId (s.moved e).view := by
    have hids : (s.moved e).view.map StepTask.taskId = s.rows.map RunRow.taskId := by
      rw [view, rows_moved, List.map_map, List.map_map]
      refine List.map_congr_left fun r _ ↦ ?_
      by_cases htask : r.taskId = e.task <;> simp [htask, RunRow.view]
    rw [Keyed, hids]
    exact hfresh.keyed
  refine ⟨RunRow.view { row with done := true, skipped := row.skipped || (!e.isFinish && s.active) },
    hkeyed.find?_eq_some_iff.mpr ⟨?_, hid⟩, hid, hkey, hgo⟩
  rw [view, rows_moved]
  refine List.mem_map_of_mem (List.mem_map.mpr ⟨row, hrow, ?_⟩)
  rw [if_pos hid]

/-- The rest of the group is open exactly when some task of it has not been finished or deleted. -/
theorem groupOpen_moved_iff (h : s.GroupAt key iteration ids closed) {t : StepTask}
    (hid : t.taskId = e.task) (hstep : t.step = key) (hgo : t.iteration = iteration) :
    groupOpen (s.moved e).view t = true ↔ ∃ id ∈ ids, id ≠ e.task ∧ id ∉ closed := by
  simp only [groupOpen, view, rows_moved, List.any_eq_true, List.mem_map, Bool.and_eq_true,
    decide_eq_true_eq, bne_iff_ne, Bool.not_eq_true', StepTask.SameGroup, hid, hstep, hgo]
  constructor
  · rintro ⟨other, ⟨moved, ⟨row, hrow, rfl⟩, rfl⟩, ⟨⟨hgroup, hne⟩, hdone⟩, hskip⟩
    have hother : row.taskId ≠ e.task := by
      intro htask
      simp [htask, RunRow.view] at hne
    rw [if_neg hother] at hgroup hdone
    have hmem := (h.member row hrow).mp hgroup
    refine ⟨row.taskId, hmem, hother, fun hclosed ↦ ?_⟩
    have htrue := (h.done row hrow hmem).mpr hclosed
    rw [show row.view.done = row.done from rfl, htrue] at hdone
    cases hdone
  · rintro ⟨id, hmem, hne, hnot⟩
    obtain ⟨row, hrow, rfl⟩ := h.present id hmem
    refine ⟨row.view, ⟨row, ⟨row, hrow, if_neg hne⟩, rfl⟩, ⟨⟨(h.member row hrow).mpr hmem, hne⟩, ?_⟩,
      ?_⟩
    · exact Bool.eq_false_iff.mpr fun hdone ↦ hnot ((h.done row hrow hmem).mp hdone)
    · exact Bool.eq_false_iff.mpr fun hskip ↦ hnot (h.skipped row hrow hmem hskip)

/-- What a run fires at an event of a group is a function of the event and of whether it is the
last. -/
theorem firedBy_eq_firedAt (h : s.GroupAt key iteration ids closed) (hfresh : s.Fresh)
    (hactive : s.active = true) (hroot : key ≠ rootKey) (he : e.task ∈ ids) :
    s.firedBy e = firedAt s.steps key e (!restOpen ids closed e.task) := by
  obtain ⟨t, ht, hid, hstep, hgo⟩ := exists_stepOf_moved h hfresh he
  have hopen : groupOpen (s.moved e).view t = restOpen ids closed e.task := by
    rw [Bool.eq_iff_iff, groupOpen_moved_iff h hid hstep hgo]
    simp [restOpen]
  cases e with
  | finished task answer now =>
    simp only [TaskEvent.task] at ht
    simp only [firedBy, hactive, if_true, TaskEvent.event, fire, ht, hstep, hroot, if_false,
      Option.elim_some, fired_fireFinished, hopen, firedAt, givenBy, TaskEvent.isFinish,
      TaskEvent.answer]
    cases restOpen ids closed (TaskEvent.finished task answer now).task <;> rfl
  | deleted task now =>
    simp only [TaskEvent.task] at ht
    simp [firedBy, hactive, TaskEvent.event, fire, ht, hstep, hroot, firedAt, TaskEvent.isFinish,
      Firing.nothing]

end Firing

/-! ### Running on -/

section Running

variable {zone : Zone} {s : RunState} {key : Text} {iteration : ℕ} {ids closed : List TaskId}
  {e : TaskEvent}

theorem active_next (zone : Zone) (s : RunState) (e : TaskEvent) :
    (s.next zone e).active =
      (s.active && !(s.moved e).closes (s.planFor zone e) && !(s.planFor zone e).endRun) := by
  rw [next, applyPlan, active_moved]

/-- A run that is over stays over. -/
theorem active_of_active_next (h : (s.next zone e).active = true) : s.active = true := by
  rw [active_next] at h
  simp only [Bool.and_eq_true] at h
  exact h.1.1

theorem active_of_active_after {events : List TaskEvent}
    (h : (s.after zone events).active = true) : s.active = true := by
  induction events generalizing s with
  | nil => exact h
  | cons e rest ih => exact active_of_active_next (ih h)

/-- An event on a task other than the root does not end the run by itself. -/
theorem endRun_planFor (h : s.GroupAt key iteration ids closed) (hfresh : s.Fresh)
    (hroot : key ≠ rootKey) (he : e.task ∈ ids) : (s.planFor zone e).endRun = false := by
  unfold planFor
  split_ifs with hactive
  · obtain ⟨t, ht, -, hstep, -⟩ := exists_stepOf_moved h hfresh he
    rw [endRun_react]
    cases e with
    | finished task answer now =>
      simp only [TaskEvent.task] at ht
      simp [TaskEvent.event, fire, ht, hstep, hroot]
    | deleted task now =>
      simp only [TaskEvent.task] at ht
      simp [TaskEvent.event, fire, ht, hstep, hroot]
  · rfl

/-- The root waits for every task of a group that counts, so the run goes on while one is open. -/
theorem active_next_of_counts (h : s.GroupAt key iteration ids closed) (hfresh : s.Fresh)
    (hroot : key ≠ rootKey) (he : e.task ∈ ids) (hactive : s.active = true)
    (hcounts : ∀ row ∈ s.rows, row.taskId ∈ ids → row.counts = true)
    (hopen : restOpen ids closed e.task = true) : (s.next zone e).active = true := by
  have hfinish : (s.planFor zone e).finishRoot = false := by
    obtain ⟨id, hid, hne⟩ := List.any_eq_true.mp hopen
    simp only [Bool.and_eq_true, decide_eq_true_eq] at hne
    obtain ⟨row, hrow, rfl⟩ := h.present id hid
    have hstep := ((h.member row hrow).mpr hid).1
    have hdone : row.done = false :=
      Bool.eq_false_iff.mpr fun hdone ↦ hne.2 ((h.done row hrow hid).mp hdone)
    have hskip : row.skipped = false :=
      Bool.eq_false_iff.mpr fun hskip ↦ hne.2 (h.skipped row hrow hid hskip)
    have hmem : row.view ∈ (s.moved e).view := by
      rw [view, rows_moved]
      refine List.mem_map_of_mem (List.mem_map.mpr ⟨row, hrow, ?_⟩)
      rw [if_neg hne.1]
    have hwaits : ∀ firing, openAfter e.event firing row.view = true := by
      intro firing
      cases e with
      | finished task answer now =>
        have hother : (task == row.taskId) = false := beq_eq_false_iff_ne.mpr (Ne.symm hne.1)
        simp [openAfter, RunRow.view, hstep, hroot, hcounts row hrow hid, hskip, hdone,
          TaskEvent.event, RunEvent.finishes, RunEvent.deletes, hother]
      | deleted task now =>
        have hother : (task == row.taskId) = false := beq_eq_false_iff_ne.mpr (Ne.symm hne.1)
        simp [openAfter, RunRow.view, hstep, hroot, hcounts row hrow hid, hskip, hdone,
          TaskEvent.event, RunEvent.finishes, RunEvent.deletes, hother]
    rw [planFor, if_pos hactive]
    cases hfire : fire s.steps (s.moved e).view e.event with
    | none => rw [react_of_end hfire]; rfl
    | some firing =>
      rw [react_of_fire hfire]
      have hany : (s.moved e).view.any (openAfter e.event firing) = true :=
        List.any_eq_true.mpr ⟨row.view, hmem, hwaits firing⟩
      simp [finishesRoot, hany]
  rw [active_next, closes, hfinish, endRun_planFor h hfresh hroot he, hactive]
  rfl

theorem counts_next (h : s.GroupAt key iteration ids closed) (hfresh : s.Fresh)
    (hcounts : ∀ row ∈ s.rows, row.taskId ∈ ids → row.counts = true) :
    ∀ row ∈ (s.next zone e).rows, row.taskId ∈ ids → row.counts = true := by
  intro row hrow hid
  rw [rows_next, List.mem_append, List.mem_map, List.mem_map] at hrow
  obtain ⟨old, hmem, rfl⟩ | ⟨made, hmade, rfl⟩ := hrow
  · rw [(nextRow_fields zone s e old).1] at hid
    rw [(nextRow_fields zone s e old).2.2.2.1]
    exact hcounts old hmem hid
  · obtain ⟨-, -, -, -, -, -, -, -, hnew⟩ := exists_of_mem_made hmade
    rw [(closeRow_fields _ made).1] at hid
    obtain ⟨old, hold, hold'⟩ := h.present _ hid
    exact absurd (hfresh.below old hold) (not_lt.mpr (hold' ▸ hnew))

end Running

/-! ### What one event makes -/

/-- What is made for one step: which go, and for which entry. -/
def goes (index : ℕ) (made : List Creation) : List (ℕ × Option Text) :=
  (made.filter fun c ↦ c.step == index).map fun c ↦ (c.iteration, c.param)

section Making

variable {zone : Zone} {s : RunState} {e : TaskEvent} {index : ℕ} {step : Step}

theorem nextIteration_moved (s : RunState) (e : TaskEvent) (step : Step) :
    nextIteration (s.moved e).view step = nextIteration s.view step := by
  have hview : (s.view.filter fun t ↦ t.step == step.key).map StepTask.iteration =
      (s.rows.filter fun row ↦ row.step == step.key).map RunRow.iteration := by
    simp only [view, List.filter_map, List.map_map, Function.comp_def]
    rfl
  rw [nextIteration, nextIteration, iteration_view_moved, hview]

/-- The step makes its tasks at the event. -/
def makes (s : RunState) (e : TaskEvent) (step : Step) : Bool :=
  step.awaits (s.firedBy e) && !step.spent (s.moved e).view

theorem goes_planFor (zone : Zone) (hstep : s.steps[index]? = some step) :
    goes index (s.planFor zone e).create =
      if s.makes e step then step.params.map fun entry ↦ (nextIteration s.view step, entry)
      else [] := by
  by_cases hactive : s.active = true
  · rw [goes, planFor, if_pos hactive, makes, firedBy, if_pos hactive]
    cases hfire : fire s.steps (s.moved e).view e.event with
    | none =>
      rw [react_of_end hfire, Option.elim_none, Step.awaits_nil]
      rfl
    | some firing =>
      rw [react_of_fire hfire, Option.elim_some]
      simp only [filter_creations hstep]
      split_ifs
      · rw [creationsOf, List.map_map, ← nextIteration_moved s e step]
        rfl
      · rfl
  · rw [goes, planFor, if_neg hactive, makes, firedBy, if_neg hactive, Step.awaits_nil]
    rfl

/-- A step is at one place in the list. -/
theorem index_unique {steps : List Step} (hkeys : Keyed Step.key steps) {i j : ℕ} {first second : Step}
    (hfirst : steps[i]? = some first) (hsecond : steps[j]? = some second)
    (hkey : first.key = second.key) : i = j := by
  obtain ⟨hi, rfl⟩ := List.getElem?_eq_some_iff.mp hfirst
  obtain ⟨hj, rfl⟩ := List.getElem?_eq_some_iff.mp hsecond
  have hnodup := List.nodup_iff_injective_get.mp hkeys
  have hsame := @hnodup ⟨i, by simpa using hi⟩ ⟨j, by simpa using hj⟩ (by simpa using hkey)
  simpa using hsame

/-- A row of a step after an event: one that was there, or one of the tasks the event made for the
step. -/
theorem row_of_step (hkeys : Keyed Step.key s.steps) (hstep : s.steps[index]? = some step)
    {row : RunRow} (hrow : row ∈ (s.next zone e).rows) (hkey : row.step = step.key) :
    (∃ old ∈ s.rows, old.step = step.key ∧ row = s.nextRow zone e old) ∨
      s.makes e step = true ∧ row.iteration = nextIteration s.view step ∧ row.skipped = false := by
  rw [rows_next, List.mem_append, List.mem_map, List.mem_map] at hrow
  obtain ⟨old, hmem, rfl⟩ | ⟨made, hmade, rfl⟩ := hrow
  · rw [(nextRow_fields zone s e old).2.1] at hkey
    exact .inl ⟨old, hmem, hkey, rfl⟩
  · right
    obtain ⟨creation, hcreation, other, hother, -, hmadeStep, hskip, hiteration, -⟩ :=
      exists_of_mem_made hmade
    rw [(closeRow_fields _ made).2.1, hmadeStep] at hkey
    rw [(closeRow_fields _ made).2.2.1, (closeRow_fields _ made).2.2.2.2.1]
    have hindex := index_unique hkeys hother hstep hkey
    have hsame : other = step := by
      rw [hindex, hstep] at hother
      exact (Option.some.inj hother).symm
    rw [hsame, nextIteration_moved] at hiteration
    refine ⟨?_, hiteration, hskip⟩
    by_contra hmakes
    have hgoes := goes_planFor (e := e) zone hstep
    rw [if_neg hmakes, goes, List.map_eq_nil_iff, List.filter_eq_nil_iff] at hgoes
    exact hgoes creation hcreation (by simp [hindex])

/-- What an event makes for a step is among the rows afterwards. -/
theorem exists_row_of_makes (zone : Zone) (hstep : s.steps[index]? = some step)
    (hmakes : s.makes e step = true) :
    ∃ row ∈ (s.next zone e).rows, row.step = step.key ∧
      row.iteration = nextIteration s.view step ∧ row.skipped = false := by
  have hgoes := goes_planFor (e := e) zone hstep
  rw [if_pos hmakes] at hgoes
  obtain ⟨entry, hentry⟩ := List.exists_mem_of_ne_nil _ (params_ne_nil step)
  have hmem : (nextIteration s.view step, entry) ∈ goes index (s.planFor zone e).create := by
    rw [hgoes]
    exact List.mem_map_of_mem hentry
  obtain ⟨creation, hcreation, hpair⟩ := List.mem_map.mp hmem
  obtain ⟨hcreate, hindex⟩ := List.mem_filter.mp hcreation
  obtain ⟨position, hposition⟩ := List.getElem?_of_mem hcreate
  have hmade : (s.moved e).madeRow creation ((s.moved e).nextId + position) ∈
      (s.moved e).madeRows (s.planFor zone e) :=
    List.mem_map.mpr ⟨(creation, position), List.mem_zipIdx_iff_getElem?.mpr hposition, rfl⟩
  have hrow := List.mem_map_of_mem
    (f := closeRow ((s.moved e).closes (s.planFor zone e))) hmade
  refine ⟨_, by rw [rows_next]; exact List.mem_append_right _ hrow, ?_, ?_, ?_⟩
  · rw [(closeRow_fields _ _).2.1]
    simp [madeRow, eq_of_beq hindex, hstep]
  · rw [(closeRow_fields _ _).2.2.1]
    exact (Prod.mk.inj hpair).1
  · rw [(closeRow_fields _ _).2.2.2.2.1]
    rfl

/-- The goes at a step after an event: one more if the event makes the step's tasks. -/
theorem nextIteration_next (hkeys : Keyed Step.key s.steps)
    (hstep : s.steps[index]? = some step) :
    nextIteration (s.next zone e).view step =
      nextIteration s.view step + if s.makes e step then 1 else 0 := by
  obtain ⟨n, hn⟩ : ∃ n, nextIteration s.view step = n + 1 := ⟨_, rfl⟩
  have hold : ∀ old ∈ s.rows, old.step = step.key → old.iteration ≤ n := fun old hmem hkey ↦ by
    have hlt : old.iteration < nextIteration s.view step :=
      iteration_lt_nextIteration (List.mem_map_of_mem (f := RunRow.view) hmem) hkey
    omega
  by_cases hmakes : s.makes e step = true
  · rw [if_pos hmakes, hn]
    refine nextIteration_eq ?_ (.inr ?_)
    · intro t ht hkey
      obtain ⟨row, hrow, rfl⟩ := List.mem_map.mp ht
      obtain ⟨old, hmem, hold', rfl⟩ | ⟨-, hiteration, -⟩ := row_of_step hkeys hstep hrow hkey
      · have hle := hold old hmem hold'
        have hsame := (nextRow_fields zone s e old).2.2.1
        change (s.nextRow zone e old).iteration ≤ n + 1
        omega
      · exact (hiteration.trans hn).le
    · obtain ⟨row, hrow, hkey, hiteration, -⟩ := exists_row_of_makes zone hstep hmakes
      exact ⟨row.view, List.mem_map_of_mem hrow, hkey, hiteration.trans hn⟩
  · rw [if_neg hmakes, hn, Nat.add_zero]
    refine nextIteration_eq ?_ ?_
    · intro t ht hkey
      obtain ⟨row, hrow, rfl⟩ := List.mem_map.mp ht
      obtain ⟨old, hmem, hold', rfl⟩ | ⟨hmade, -⟩ := row_of_step hkeys hstep hrow hkey
      · exact (nextRow_fields zone s e old).2.2.1.le.trans (hold old hmem hold')
      · exact absurd hmade hmakes
    · refine (exists_iteration_eq hn).imp_right ?_
      rintro ⟨t, ht, hkey, hiteration⟩
      obtain ⟨old, hmem, rfl⟩ := List.mem_map.mp ht
      refine ⟨(s.nextRow zone e old).view, List.mem_map_of_mem ?_, ?_, ?_⟩
      · rw [rows_next]
        exact List.mem_append_left _ (List.mem_map_of_mem hmem)
      · exact (nextRow_fields zone s e old).2.1.trans hkey
      · exact (nextRow_fields zone s e old).2.2.1.trans hiteration

/-- A step that runs once is spent while it has a task that was not skipped. -/
theorem spent_view_iff :
    step.spent s.view = true ↔
      step.once = true ∧ ∃ row ∈ s.rows, row.step = step.key ∧ row.skipped = false := by
  simp [Step.spent, view, RunRow.view]

/-- Being asked does not change whether another step is spent. -/
theorem spent_moved (hother : ∀ row ∈ s.rows, row.taskId = e.task → row.step ≠ step.key) :
    step.spent (s.moved e).view = step.spent s.view := by
  rw [Bool.eq_iff_iff, spent_view_iff, spent_view_iff, rows_moved]
  refine and_congr_right fun _ ↦ ?_
  constructor
  · rintro ⟨_, hmem, hkey, hskip⟩
    obtain ⟨row, hrow, rfl⟩ := List.mem_map.mp hmem
    split_ifs at hkey hskip with htask
    · exact absurd hkey (hother row hrow htask)
    · exact ⟨row, hrow, hkey, hskip⟩
  · rintro ⟨row, hrow, hkey, hskip⟩
    refine ⟨row, List.mem_map.mpr ⟨row, hrow, ?_⟩, hkey, hskip⟩
    rw [if_neg fun htask ↦ hother row hrow htask hkey]

/-- A step that runs once is spent after an event if it was before or the event made its tasks. -/
theorem spent_next (hkeys : Keyed Step.key s.steps) (hstep : s.steps[index]? = some step)
    (hother : ∀ row ∈ s.rows, row.taskId = e.task → row.step ≠ step.key) :
    step.spent (s.next zone e).view = (step.spent s.view || (step.once && s.makes e step)) := by
  rw [Bool.eq_iff_iff, Bool.or_eq_true, Bool.and_eq_true, spent_view_iff, spent_view_iff,
    ← and_or_left]
  refine and_congr_right fun _ ↦ ?_
  have hskipped : ∀ old ∈ s.rows, old.step = step.key →
      (s.nextRow zone e old).skipped = old.skipped := by
    intro old hmem hkey
    have htask : old.taskId ≠ e.task := fun htask ↦ hother old hmem htask hkey
    rw [(nextRow_fields zone s e old).2.2.2.2.1]
    simp [htask]
  constructor
  · rintro ⟨row, hrow, hkey, hskip⟩
    obtain ⟨old, hmem, hold, rfl⟩ | ⟨hmakes, -⟩ := row_of_step hkeys hstep hrow hkey
    · exact .inl ⟨old, hmem, hold, (hskipped old hmem hold).symm.trans hskip⟩
    · exact .inr hmakes
  · rintro (⟨old, hmem, hold, hskip⟩ | hmakes)
    · refine ⟨s.nextRow zone e old, ?_, (nextRow_fields zone s e old).2.1.trans hold,
        (hskipped old hmem hold).trans hskip⟩
      rw [rows_next]
      exact List.mem_append_left _ (List.mem_map_of_mem hmem)
    · obtain ⟨row, hrow, hkey, -, hskip⟩ := exists_row_of_makes zone hstep hmakes
      exact ⟨row, hrow, hkey, hskip⟩

end Making

/-! ### What the events of a group make -/

/-- How often a step is fired over the events of a group. -/
def hits (steps : List Step) (key : Text) (step : Step) : List TaskEvent → ℕ
  | [] => 0
  | e :: rest =>
    (if step.awaits (firedAt steps key e rest.isEmpty) then 1 else 0) + hits steps key step rest

/-- The goes a step makes when it is fired `count` times and the next go is `first`. -/
def rounds (once spent : Bool) (first count : ℕ) : List ℕ :=
  if once then if spent || count = 0 then [] else [first] else List.range' first count

theorem goes_append (index : ℕ) (first second : List Creation) :
    goes index (first ++ second) = goes index first ++ goes index second := by
  simp [goes]

@[simp] theorem steps_next (zone : Zone) (s : RunState) (e : TaskEvent) :
    (s.next zone e).steps = s.steps := by
  simp [next, applyPlan]

section Events

variable {zone : Zone} {s : RunState} {key : Text} {iteration : ℕ} {ids closed : List TaskId}
  {index : ℕ} {step : Step}

/-- While a task of the group is open, a step of the same key that runs once is spent. -/
theorem spent_of_open (h : s.GroupAt key iteration ids closed) (honce : step.once = true)
    (hkey : step.key = key) {id : TaskId} (hid : id ∈ ids) (hopen : id ∉ closed) :
    step.spent s.view = true := by
  obtain ⟨row, hrow, rfl⟩ := h.present id hid
  refine spent_view_iff.mpr ⟨honce, row, hrow, ((h.member row hrow).mpr hid).1.trans hkey.symm, ?_⟩
  exact Bool.eq_false_iff.mpr fun hskip ↦ hopen (h.skipped row hrow hid hskip)

/-- A step that runs once does not make itself again by an event of its own group. -/
theorem makes_own (h : s.GroupAt key iteration ids closed) (hfresh : s.Fresh)
    (hroot : key ≠ rootKey) (honce : step.once = true) (hkey : step.key = key) {e : TaskEvent}
    (he : e.task ∈ ids) (hopen : e.task ∉ closed) : s.makes e step = false := by
  by_cases hactive : s.active = true
  · rw [makes, firedBy_eq_firedAt h hfresh hactive hroot he]
    cases hfinish : e.isFinish with
    | false => rw [firedAt, hfinish, if_neg (by simp), Step.awaits_nil, Bool.false_and]
    | true =>
      obtain ⟨row, hrow, hid⟩ := h.present _ he
      have hspent : step.spent (s.moved e).view = true := by
        have hmem : { row with done := true, skipped := row.skipped || (!e.isFinish && s.active) } ∈
            (s.moved e).rows := by
          rw [rows_moved]
          exact List.mem_map.mpr ⟨row, hrow, if_pos hid⟩
        refine spent_view_iff.mpr ⟨honce, _, hmem, ?_, ?_⟩
        · exact ((h.member row hrow).mpr (hid ▸ he)).1.trans hkey.symm
        · have hskip : row.skipped = false :=
            Bool.eq_false_iff.mpr fun hskip ↦
              hopen (hid ▸ h.skipped row hrow (hid ▸ he) hskip)
          simp [hskip, hfinish]
      rw [hspent, Bool.not_true, Bool.and_false]
  · rw [makes, firedBy, if_neg hactive, Step.awaits_nil, Bool.false_and]

/-- The events that are still to come for a group: one for each task that is open. -/
structure Remaining (ids closed : List TaskId) (events : List TaskEvent) : Prop where
  apart : (events.map TaskEvent.task).Nodup
  mem_iff : ∀ id, id ∈ events.map TaskEvent.task ↔ id ∈ ids ∧ id ∉ closed

theorem Remaining.head {e : TaskEvent} {rest : List TaskEvent}
    (h : Remaining ids closed (e :: rest)) : e.task ∈ ids ∧ e.task ∉ closed :=
  (h.mem_iff e.task).mp List.mem_cons_self

theorem Remaining.tail {e : TaskEvent} {rest : List TaskEvent}
    (h : Remaining ids closed (e :: rest)) : Remaining ids (e.task :: closed) rest := by
  obtain ⟨hnot, hapart⟩ := List.nodup_cons.mp h.apart
  refine ⟨hapart, fun id ↦ ?_⟩
  have hid := h.mem_iff id
  rw [List.map_cons, List.mem_cons] at hid
  rw [List.mem_cons, not_or, and_left_comm, ← hid]
  constructor
  · intro hmem
    exact ⟨fun heq ↦ hnot (heq ▸ hmem), .inr hmem⟩
  · rintro ⟨hne, heq | hmem⟩
    · exact absurd heq hne
    · exact hmem

/-- Something is open after an event exactly when it is not the last. -/
theorem Remaining.restOpen_eq {e : TaskEvent} {rest : List TaskEvent}
    (h : Remaining ids closed (e :: rest)) : restOpen ids closed e.task = !rest.isEmpty := by
  have hrest := h.tail.mem_iff
  rw [Bool.eq_iff_iff, restOpen, List.any_eq_true, Bool.not_eq_true', List.isEmpty_eq_false_iff]
  constructor
  · rintro ⟨id, hid, hopen⟩
    simp only [Bool.and_eq_true, decide_eq_true_eq] at hopen
    have hmem := (hrest id).mpr ⟨hid, by simp [hopen.1, hopen.2]⟩
    rintro rfl
    cases hmem
  · intro hne
    obtain ⟨other, hother⟩ := List.exists_mem_of_ne_nil _ hne
    obtain ⟨hid, hnot⟩ := (hrest other.task).mp (List.mem_map_of_mem hother)
    rw [List.mem_cons, not_or] at hnot
    exact ⟨other.task, hid, by simp [hnot.1, hnot.2]⟩

/-- What a run makes for a step over the events of a group depends on how often the step is fired, and
on nothing else about them. -/
theorem goes_createdBy (hroot : key ≠ rootKey) (hkeys : Keyed Step.key s.steps)
    (hstep : s.steps[index]? = some step) {events : List TaskEvent}
    (h : s.GroupAt key iteration ids closed) (hfresh : s.Fresh)
    (hremaining : Remaining ids closed events)
    (hrunning : ∀ before e rest, events = before ++ e :: rest →
      (s.after zone before).active = true) :
    goes index (s.createdBy zone events) =
      (rounds step.once (step.spent s.view) (nextIteration s.view step)
        (hits s.steps key step events)).flatMap fun go ↦ step.params.map fun entry ↦ (go, entry) := by
  induction events generalizing s closed with
  | nil => cases step.once <;> simp [createdBy, goes, hits, rounds]
  | cons e rest ih =>
    obtain ⟨hid, hopen⟩ := hremaining.head
    have hactive : s.active = true := hrunning [] e rest rfl
    have hrest := ih (s := s.next zone e) (by simpa using hkeys) (by simpa using hstep)
      (h.next hfresh hroot hid) (hfresh.next e) hremaining.tail
      (fun before e' rest' heq ↦ hrunning (e :: before) e' rest' (by rw [heq]; rfl))
    rw [createdBy, goes_append, goes_planFor zone hstep, hrest, steps_next, nextIteration_next hkeys hstep,
      hits]
    have hfired : s.firedBy e = firedAt s.steps key e rest.isEmpty := by
      rw [firedBy_eq_firedAt h hfresh hactive hroot hid, hremaining.restOpen_eq, Bool.not_not]
    cases honce : step.once with
    | false =>
      have hmakes : s.makes e step = step.awaits (firedAt s.steps key e rest.isEmpty) := by
        simp [makes, Step.spent, honce, hfired]
      rw [hmakes]
      cases step.awaits (firedAt s.steps key e rest.isEmpty)
      · simp [rounds]
      · simp [rounds, Nat.add_comm 1, List.range'_succ]
    | true =>
      by_cases hkey : step.key = key
      · -- the step belongs to the group itself, so its open task keeps it spent
        have hspent := spent_of_open h honce hkey hid hopen
        rw [makes_own h hfresh hroot honce hkey hid hopen, hspent]
        cases rest with
        | nil => simp [rounds, hits]
        | cons next rest =>
          obtain ⟨hid', hopen'⟩ := hremaining.tail.head
          rw [spent_of_open (h.next hfresh hroot hid) honce hkey hid' hopen']
          simp [rounds]
      · have hother : ∀ row ∈ s.rows, row.taskId = e.task → row.step ≠ step.key := by
          intro row hrow htask hsame
          have hgroup := ((h.member row hrow).mpr (htask ▸ hid)).1
          exact hkey (hsame.symm.trans hgroup)
        have hmakes : s.makes e step =
            (step.awaits (firedAt s.steps key e rest.isEmpty) && !step.spent s.view) := by
          rw [makes, spent_moved hother, hfired]
        rw [spent_next hkeys hstep hother, hmakes, honce]
        cases step.awaits (firedAt s.steps key e rest.isEmpty) <;>
          cases step.spent s.view <;> simp [rounds]

end Events

/-! ### The order of the events -/

/-- The last of the events is a finish. -/
def EndsFinished (events : List TaskEvent) : Prop :=
  ∃ front last, events = front ++ [last] ∧ last.isFinish = true

theorem awaits_append (step : Step) (first second : List Trigger) :
    step.awaits (first ++ second) = (step.awaits first || step.awaits second) := by
  have hhits : ∀ trigger : Trigger, trigger.hits (first ++ second) =
      (trigger.hits first || trigger.hits second) := by
    intro trigger
    cases trigger <;> simp [Trigger.hits]
  rw [Bool.eq_iff_iff]
  simp only [Step.awaits, hhits, Bool.and_eq_true, Bool.or_eq_true, List.any_eq_true]
  grind

/-- Only a step with a trigger on the end of a step waits for it. -/
theorem awaits_finished (step : Step) (key : Text) :
    step.awaits [.finished key] = (!step.isRoot && decide (.finished key ∈ step.created)) := by
  rw [Step.awaits]
  congr 1
  rw [Bool.eq_iff_iff, List.any_eq_true, decide_eq_true_eq]
  constructor
  · rintro ⟨trigger, hmem, hhits⟩
    cases trigger <;> simp_all [Trigger.hits, Trigger.isAnswer]
  · exact fun hmem ↦ ⟨_, hmem, by simp [Trigger.hits]⟩

/-- Only a step with a trigger on an answer of a step waits for one. -/
theorem awaits_answered {step : Step} {key : Text} (given : Option Text)
    (hnone : ∀ answer, .answered key answer ∉ step.created) :
    step.awaits (given.toList.map (.answered key)) = false := by
  cases given with
  | none => exact Step.awaits_nil step
  | some given =>
    rw [Step.awaits, Bool.and_eq_false_iff]
    right
    rw [List.any_eq_false]
    intro trigger hmem hhits
    cases trigger with
    | answered s answer =>
      have hkey : key = s := by
        simp only [Option.toList_some, List.map_cons, List.map_nil, Trigger.hits, List.any_cons,
          List.any_nil, Trigger.isAnswer, Bool.or_false, Bool.and_eq_true, beq_iff_eq] at hhits
        exact hhits.1
      exact hnone answer (hkey ▸ hmem)
    | withRoot => simp [Trigger.hits] at hhits
    | rootStarted => simp [Trigger.hits] at hhits
    | finished s => simp [Trigger.hits] at hhits

/-- Every event but the last can only be fired by its answer. -/
theorem hits_append_singleton (steps : List Step) (key : Text) (step : Step)
    (front : List TaskEvent) (last : TaskEvent) :
    hits steps key step (front ++ [last]) =
      front.countP (fun e ↦ step.awaits (firedAt steps key e false)) +
        if step.awaits (firedAt steps key last true) then 1 else 0 := by
  induction front with
  | nil => simp [hits]
  | cons e rest ih =>
    have hmore : (rest ++ [last]).isEmpty = false := by simp
    rw [List.cons_append, hits, ih, hmore, List.countP_cons]
    omega

/-- A step that waits for the end of a step is fired by the last event if that is a finish. -/
theorem awaits_firedAt_last {steps : List Step} {key : Text} {step : Step} {last : TaskEvent}
    (hlast : last.isFinish = true) (htrigger : .finished key ∈ step.created)
    (hroot : step.isRoot = false) : step.awaits (firedAt steps key last true) = true := by
  rw [firedAt, if_pos hlast, if_pos rfl, awaits_append, awaits_finished]
  simp [hroot, htrigger]

/-- A step that is not fired by the end of the group is fired by each event on its own. -/
theorem hits_of_not_mem {steps : List Step} {key : Text} {step : Step}
    (hnone : .finished key ∉ step.created) {events : List TaskEvent} (hends : EndsFinished events) :
    hits steps key step events =
      events.countP fun e ↦ step.awaits (firedAt steps key e false) := by
  obtain ⟨front, last, rfl, hlast⟩ := hends
  have hsame : step.awaits (firedAt steps key last true) =
      step.awaits (firedAt steps key last false) := by
    simp only [firedAt, hlast, if_true, awaits_append, awaits_finished, hnone, decide_false,
      Bool.and_false, Bool.false_or, Bool.false_eq_true, if_false, List.nil_append]
  rw [hits_append_singleton, hsame, List.countP_append, List.countP_singleton]

/-- A step that is not fired by answers is fired once, by the end of the group. -/
theorem hits_of_not_answered {steps : List Step} {key : Text} {step : Step}
    (hnone : ∀ answer, .answered key answer ∉ step.created)
    (htrigger : .finished key ∈ step.created) (hroot : step.isRoot = false)
    {events : List TaskEvent} (hends : EndsFinished events) : hits steps key step events = 1 := by
  obtain ⟨front, last, rfl, hlast⟩ := hends
  have hearly : front.countP (fun e ↦ step.awaits (firedAt steps key e false)) = 0 := by
    rw [List.countP_eq_zero]
    intro e _
    cases hfinish : e.isFinish with
    | false => simp [firedAt, hfinish, Step.awaits_nil]
    | true =>
      rw [firedAt, if_pos hfinish, if_neg (by simp), List.nil_append, awaits_answered _ hnone]
      simp
  rw [hits_append_singleton, hearly, if_pos (awaits_firedAt_last hlast htrigger hroot)]

/-- Two orders of the same events that end with a finish make the same for every step, unless the
step is fired by the end of the group and by answers in it, as often as they come. -/
theorem rounds_hits_perm {steps : List Step} {key : Text} {step : Step}
    (hone : step.once = true ∨ .finished key ∉ step.created ∨
      ∀ answer, .answered key answer ∉ step.created)
    {first second : List TaskEvent} (hperm : first.Perm second) (hfirst : EndsFinished first)
    (hsecond : EndsFinished second) (spent : Bool) (n : ℕ) :
    rounds step.once spent n (hits steps key step first) =
      rounds step.once spent n (hits steps key step second) := by
  by_cases htrigger : .finished key ∈ step.created
  · cases hroot : step.isRoot with
    | true =>
      have hnever : ∀ events, hits steps key step events = 0 := by
        intro events
        induction events with
        | nil => rfl
        | cons e rest ih => simp [hits, ih, Step.awaits, hroot]
      rw [hnever, hnever]
    | false =>
      rcases hone with honce | hnone | hnone
      · have hpos : ∀ events, EndsFinished events → hits steps key step events ≠ 0 := by
          rintro _ ⟨front, last, rfl, hlast⟩
          rw [hits_append_singleton, if_pos (awaits_firedAt_last hlast htrigger hroot)]
          omega
        simp [rounds, honce, hpos _ hfirst, hpos _ hsecond]
      · exact absurd htrigger hnone
      · rw [hits_of_not_answered hnone htrigger hroot hfirst,
          hits_of_not_answered hnone htrigger hroot hsecond]
  · rw [hits_of_not_mem htrigger hfirst, hits_of_not_mem htrigger hsecond, hperm.countP_eq]

/-! ### A group that is still open -/

/-- The tasks of a group, by the rows of the run. -/
def groupIds (s : RunState) (key : Text) (iteration : ℕ) : List TaskId :=
  (s.rows.filter fun row ↦ row.step == key && row.iteration == iteration).map RunRow.taskId

/-- Nothing of the group has been finished or deleted yet. -/
def GroupUntouched (s : RunState) (key : Text) (iteration : ℕ) : Prop :=
  ∀ row ∈ s.rows, row.step = key → row.iteration = iteration →
    row.done = false ∧ row.skipped = false

/-- The root waits for the group. -/
def GroupCounts (s : RunState) (key : Text) (iteration : ℕ) : Prop :=
  ∀ row ∈ s.rows, row.step = key → row.iteration = iteration → row.counts = true

instance (s : RunState) (key : Text) (iteration : ℕ) :
    Decidable (s.GroupUntouched key iteration) :=
  inferInstanceAs (Decidable (∀ row ∈ s.rows, row.step = key → row.iteration = iteration →
    row.done = false ∧ row.skipped = false))

instance (s : RunState) (key : Text) (iteration : ℕ) : Decidable (s.GroupCounts key iteration) :=
  inferInstanceAs (Decidable (∀ row ∈ s.rows, row.step = key → row.iteration = iteration →
    row.counts = true))

section Order

variable {zone : Zone} {s : RunState} {key : Text} {iteration : ℕ} {events : List TaskEvent}

theorem mem_groupIds {id : TaskId} :
    id ∈ s.groupIds key iteration ↔
      ∃ row ∈ s.rows, row.step = key ∧ row.iteration = iteration ∧ row.taskId = id := by
  simp only [groupIds, List.mem_map, List.mem_filter, Bool.and_eq_true, beq_iff_eq]
  grind

theorem mem_groupIds_of_mem (hfresh : s.Fresh) {row : RunRow} (hrow : row ∈ s.rows) :
    (row.step = key ∧ row.iteration = iteration) ↔ row.taskId ∈ s.groupIds key iteration := by
  rw [mem_groupIds]
  constructor
  · rintro ⟨hstep, hgo⟩
    exact ⟨row, hrow, hstep, hgo, rfl⟩
  · rintro ⟨other, hother, hstep, hgo, hid⟩
    have hsame := List.inj_on_of_nodup_map hfresh.keyed hother hrow hid
    exact hsame ▸ ⟨hstep, hgo⟩

theorem GroupUntouched.groupAt (h : s.GroupUntouched key iteration) (hfresh : s.Fresh) :
    s.GroupAt key iteration (s.groupIds key iteration) [] where
  member _ hrow := mem_groupIds_of_mem hfresh hrow
  present id hid := by
    obtain ⟨row, hrow, -, -, rfl⟩ := mem_groupIds.mp hid
    exact ⟨row, hrow, rfl⟩
  done row hrow hid := by
    obtain ⟨hstep, hgo⟩ := (mem_groupIds_of_mem hfresh hrow).mpr hid
    simp [(h row hrow hstep hgo).1]
  skipped row hrow hid hskip := by
    obtain ⟨hstep, hgo⟩ := (mem_groupIds_of_mem hfresh hrow).mpr hid
    rw [(h row hrow hstep hgo).2] at hskip
    cases hskip

/-- An order of one event for each task of the group. -/
theorem remaining_of_perm (hfresh : s.Fresh)
    (hperm : (events.map TaskEvent.task).Perm (s.groupIds key iteration)) :
    Remaining (s.groupIds key iteration) [] events where
  apart := by
    rw [hperm.nodup_iff]
    exact hfresh.keyed.sublist (List.Sublist.map _ List.filter_sublist)
  mem_iff id := by simp [hperm.mem_iff]

/-- The group, the ids and what is still to come, after the first events of an order. -/
theorem groupAt_after (zone : Zone) {ids closed : List TaskId} (hroot : key ≠ rootKey)
    {before rest : List TaskEvent}
    (h : s.GroupAt key iteration ids closed) (hfresh : s.Fresh)
    (hremaining : Remaining ids closed (before ++ rest)) :
    ∃ closed', (s.after zone before).GroupAt key iteration ids closed' ∧
      (s.after zone before).Fresh ∧ Remaining ids closed' rest ∧
      (s.after zone before).steps = s.steps := by
  induction before generalizing s closed with
  | nil => exact ⟨closed, h, hfresh, hremaining, rfl⟩
  | cons e before ih =>
    obtain ⟨closed', hgroup, hfresh', hremaining', hsteps⟩ :=
      ih (h.next hfresh hroot hremaining.head.1) (hfresh.next e) hremaining.tail
    exact ⟨closed', hgroup, hfresh', hremaining', hsteps.trans (steps_next zone s e)⟩

/-- A run goes on through a group it counts. -/
theorem active_after_of_counts {ids closed : List TaskId} (hroot : key ≠ rootKey)
    {before rest : List TaskEvent} {e : TaskEvent} (h : s.GroupAt key iteration ids closed)
    (hfresh : s.Fresh) (hremaining : Remaining ids closed (before ++ e :: rest))
    (hactive : s.active = true)
    (hcounts : ∀ row ∈ s.rows, row.taskId ∈ ids → row.counts = true) :
    (s.after zone before).active = true := by
  induction before generalizing s closed with
  | nil => exact hactive
  | cons first before ih =>
    have hopen : restOpen ids closed first.task = true := by
      rw [hremaining.restOpen_eq]
      simp
    obtain ⟨hid, -⟩ := hremaining.head
    exact ih (h.next hfresh hroot hid) (hfresh.next first) hremaining.tail
      (active_next_of_counts h hfresh hroot hid hactive hcounts hopen)
      (counts_next h hfresh hcounts)

/-- The run is running at every event of an order: either the root waits for the group, or it is still
running when the last event comes. -/
theorem active_at_event (hroot : key ≠ rootKey) (hfresh : s.Fresh)
    (huntouched : s.GroupUntouched key iteration)
    (hperm : (events.map TaskEvent.task).Perm (s.groupIds key iteration))
    (hactive : s.active = true)
    (hrunning : s.GroupCounts key iteration ∨ (s.after zone events.dropLast).active = true)
    {before rest : List TaskEvent} {e : TaskEvent} (hevents : events = before ++ e :: rest) :
    (s.after zone before).active = true := by
  rcases hrunning with hcounts | hlast
  · refine active_after_of_counts hroot (huntouched.groupAt hfresh) hfresh
      (hevents ▸ remaining_of_perm hfresh hperm) hactive fun row hrow hid ↦ ?_
    obtain ⟨hstep, hgo⟩ := (mem_groupIds_of_mem hfresh hrow).mpr hid
    exact hcounts row hrow hstep hgo
  · have hfront : events.dropLast = before ++ (e :: rest).dropLast := by
      rw [hevents, List.dropLast_append_of_ne_nil (by simp)]
    rw [hfront, after_append] at hlast
    exact active_of_active_after hlast

/-- The end of the step is fired at the last event of an order and at no other, if the last event is a
finish. -/
theorem finished_mem_firedBy_iff (hroot : key ≠ rootKey) (hfresh : s.Fresh)
    (huntouched : s.GroupUntouched key iteration)
    (hperm : (events.map TaskEvent.task).Perm (s.groupIds key iteration))
    (hends : EndsFinished events) (hactive : s.active = true)
    (hrunning : s.GroupCounts key iteration ∨ (s.after zone events.dropLast).active = true)
    {before rest : List TaskEvent} {e : TaskEvent} (hevents : events = before ++ e :: rest) :
    .finished key ∈ (s.after zone before).firedBy e ↔ rest = [] := by
  have hrun := active_at_event hroot hfresh huntouched hperm hactive hrunning hevents
  obtain ⟨closed, hgroup, hfresh', hremaining, -⟩ := groupAt_after zone hroot
    (huntouched.groupAt hfresh) hfresh (hevents ▸ remaining_of_perm hfresh hperm)
  rw [firedBy_eq_firedAt hgroup hfresh' hrun hroot hremaining.head.1, hremaining.restOpen_eq,
    Bool.not_not]
  cases rest with
  | nil =>
    have hfinish : e.isFinish = true := by
      obtain ⟨front, last, hlast, hfinish⟩ := hends
      have heq : before ++ [e] = front ++ [last] := hevents.symm.trans hlast
      obtain ⟨-, hsame⟩ := List.append_inj' heq rfl
      exact (List.cons.inj hsame).1 ▸ hfinish
    simp [firedAt, hfinish]
  | cons next rest =>
    cases hfinish : e.isFinish <;> simp [firedAt, hfinish]

end Order

end RunState

end Taskologic.Core
