import Taskologic.Daemon.SlipFrames
import Taskologic.Library.Interleaving

/-!
# Slips of a task's own rules

A task says itself when it prints, on which paper and for whom. Creation and the move into the started column
fire rules where they happen (`fire`), and a pass of the scheduler those whose moment is a date (`queueDated`).
Both go through one log (`queueSlips`): whoever had a slip, by task, person, moment and paper, and the date it
counts from, is not handed it again.

Sections of both run between any sections of the daemon, with the tasks and the boards as they were loaded
some time before. No slip is queued twice, and a rule that fires on start does so once for a task and a person,
by the date or by the move: `queued_atMostOnce`.

Scope. A slip is known by its entry in the log; what is on the paper is left out. It counts as queued in the
section that answers it, also where the queue refuses it afterwards. The rules that a request fires at its end
are a job of their own, which loads the task again, so they may come at any time.
-/

set_option autoImplicit false
set_option relaxedAutoImplicit false

namespace Taskologic.Daemon

open Taskologic.Core Taskologic.Library

/-! ### Which slips are owed -/

inductive AutoprintTrigger where
  | addedToBoard
  | movedToStarted
  deriving DecidableEq, Repr

/-- The moment of the rules that an event fires. -/
def AutoprintTrigger.when : AutoprintTrigger → PrintWhen
  | addedToBoard => .onCreate
  | movedToStarted => .onStart

/-- A rule whose moment is a date. -/
structure PlannedRule where
  rule : PrintRule
  «at» : Instant
  /-- The date past which the slip is not worth printing. -/
  anchor : Option Instant
  /-- The date by which the log knows the slip. -/
  sentAnchor : Instant

def planRulePrint (task : Task) (rule : PrintRule) : Option PlannedRule :=
  match rule.when with
  | .onCreate => none
  | .onStart => task.startAt.map fun start ↦ ⟨rule, start, none, task.createdAt⟩
  | .beforeDue lead => task.dueAt.bind fun due ↦
      (checkedAdd due (-(lead.amount * lead.unit.inMinutes * 60))).map fun moment ↦
        ⟨rule, moment, some due, due⟩

/-- The dated rules of a task. -/
def planRulePrints (task : Task) : List PlannedRule := task.printRules.filterMap (planRulePrint task)

/-- Unfinished tasks with rules of their own and a date for them to count from. -/
def Store.datedRuleTasks (s : Store) : List Task :=
  s.tasksWhere fun board row ↦ !row.isArchived && row.columnId != board.finishedCol &&
    !row.printRules.isEmpty && (row.dueAt.isSome || row.startAt.isSome)

/-- The slips of a rule, one for each person. -/
def owedSlips (rule : PrintRule) (task : Task) (board : Board) (anchor : Instant) : List SlipRow :=
  (recipientsOf rule task board).map fun uid ↦ ⟨task.id, uid, sentKind rule, anchor⟩

/-- What an event owes. -/
def firedSlips (board : Board) (task : Task) (trigger : AutoprintTrigger) : List SlipRow :=
  (task.printRules.filter fun rule ↦ rule.when == trigger.when && rule.slip != .sheet).flatMap fun rule ↦
    owedSlips rule task board task.createdAt

/-- What the dates owe by now. -/
def datedSlips (now : Instant) (grace : ℕ) (board : Board) (task : Task) : List SlipRow :=
  ((planRulePrints task).filter fun planned ↦ decide (planned.at ≤ now) &&
    !planned.anchor.any fun anchor ↦ decide (anchor + grace < now)).flatMap fun planned ↦
      owedSlips planned.rule task board planned.sentAnchor

/-! ### The log -/

/-- `queue_rule` for one slip after another. Whoever had theirs or is not known is passed over; a task that is
gone ends it, and what is written by then stays. -/
def queueSlips : List SlipRow → Store → Except AppError (List SlipRow) × Store
  | [], s => (.ok [], s)
  | slip :: rest, s =>
    if s.slipSent slip.taskId slip.uid slip.kind slip.anchorAt || (s.user slip.uid).isNone then
      queueSlips rest s
    else if (s.taskRow slip.taskId).isNone then (.error .internal, s)
    else
      let result := queueSlips rest { s with slips := s.slips ++ [slip] }
      (result.1.map fun later ↦ slip :: later, result.2)

/-! ### Sections and jobs -/

/-- What makes out slips. -/
inductive SlipStep : Type → Type where
  /-- The tasks whose rules may have come to their date, with the time of the pass. -/
  | datedRuleTasks : SlipStep (Instant × List Task)
  | fire (board : Board) (task : Task) (trigger : AutoprintTrigger) : SlipStep (List SlipRow)
  | queueDated (now : Instant) (grace : ℕ) (board : Board) (task : Task) : SlipStep (List SlipRow)

/-- The sections of the daemon, with those that make out slips. -/
inductive SlipSection (α : Type) where
  | daemon (body : Section α)
  | step (body : SlipStep α)

/-- The store, and the slips queued so far. -/
structure Printing where
  store : Store
  queued : List SlipRow

/-- Makes out slips and queues them. -/
def Printing.make (p : Printing) (slips : List SlipRow) : Except AppError (List SlipRow) × Printing :=
  let result := queueSlips slips p.store
  (result.1, ⟨result.2, p.queued ++ match result.1 with
    | .ok queued => queued
    | .error _ => []⟩)

def SlipStep.run {α : Type} (body : SlipStep α) (outside : Outside) (p : Printing) :
    Except AppError α × Printing :=
  match body with
  | .datedRuleTasks => (.ok (outside.now, p.store.datedRuleTasks), p)
  | .fire board task trigger => p.make (firedSlips board task trigger)
  | .queueDated now grace board task => p.make (datedSlips now grace board task)

def SlipSection.run {α : Type} (body : SlipSection α) (outside : Outside) (p : Printing) :
    Except AppError α × Printing :=
  match body with
  | .daemon body => ((semantics.run body outside p.store).1,
      { p with store := (semantics.run body outside p.store).2 })
  | .step body => body.run outside p

def slipSemantics : Semantics SlipSection AppError Outside Printing where
  run := SlipSection.run

abbrev SlipCall : Type 1 := Thread SlipSection AppError Unit

/-- Fires the rules of a task. Failures are logged and never surfaced. -/
def autoprintRules (board : Board) (task : TaskId) (trigger : AutoprintTrigger) : SlipCall := do
  let task ← Thread.call (.daemon (.read (.task task)))
  let _ ← (Thread.call (.step (.fire board task trigger))).attempt
  pure ()

/-- The rules of one task in a pass of the scheduler. -/
def printDatedRules (now : Instant) (grace : ℕ) (task : Task) : SlipCall := do
  let board ← Thread.call (.daemon (.read (.board task.boardId)))
  let _ ← Thread.call (.step (.queueDated now grace board task))
  pure ()

/-- `print_dated`. -/
def printDatedTasks (grace : ℕ) : SlipCall := do
  let (now, due) ← Thread.call (.step .datedRuleTasks)
  let _ ← Thread.each (printDatedRules now grace) due
  pure ()

/-- What may be under way. -/
inductive SlipJob where
  | daemon (job : Job)
  | autoprint (board : Board) (task : TaskId) (trigger : AutoprintTrigger)
  | printDated (grace : ℕ)

def SlipJob.call : SlipJob → SlipCall
  | .daemon job => do
    let _ ← job.call.lift .daemon
    pure ()
  | .autoprint board task trigger => autoprintRules board task trigger
  | .printDated grace => printDatedTasks grace

/-- A fresh daemon with jobs to do. -/
def printFrom (jobs : List SlipJob) : Pool SlipSection AppError Printing Unit :=
  ⟨⟨Store.empty, []⟩, jobs.map SlipJob.call⟩

/-! ### What the register keeps -/

/-- Tasks have ids of their own, that have all been handed out. -/
structure Register.Numbered (r : Register) : Prop where
  keyed : Keyed Prod.fst r.tasks
  counted : ∀ pair ∈ r.tasks, pair.1 < r.nextTask

/-- A slip is in the log, or its task is gone for good. -/
structure Register.Remembers (slip : SlipRow) (r : Register) : Prop where
  numbered : r.Numbered
  known : slip.taskId < r.nextTask
  kept : slip ∈ r.slips ∨ ∀ pair ∈ r.tasks, pair.1 ≠ slip.taskId

/-- A task was made at that time, if it is still there. -/
structure Register.Dates (task : TaskId) (createdAt : Instant) (r : Register) : Prop where
  known : task < r.nextTask
  dated : ∀ pair ∈ r.tasks, pair.1 = task → pair.2 = createdAt

/-- What is so of a register stays so. -/
def Carries (P : Register → Prop) (s s' : Store) : Prop := P s.register → P s'.register

instance (P : Register → Prop) : Std.Refl (Carries P) := ⟨fun _ ↦ id⟩

instance (P : Register → Prop) : IsTrans Store (Carries P) := ⟨fun _ _ _ hone htwo ↦ htwo ∘ hone⟩

theorem slipsKeep_carries {P : Register → Prop}
    (hmake : ∀ r createdAt, P r → P { r with
      tasks := r.tasks ++ [(r.nextTask, createdAt)], nextTask := r.nextTask + 1 })
    (hprint : ∀ r slip, P r → P { r with slips := r.slips ++ [slip] })
    (hdrop : ∀ (s : Store) gone, P s.register → P (s.dropTasks gone).register) :
    SlipsKeep (Carries P) where
  same s s' hsame h := hsame ▸ h
  make s row hid h := by
    have hregister : (s.insertTask row).register = { s.register with
        tasks := s.register.tasks ++ [(s.register.nextTask, row.createdAt)]
        nextTask := s.register.nextTask + 1 } := by
      simp [Store.insertTask, Store.register, hid]
    rw [hregister]
    exact hmake _ _ h
  print s slip h := hprint _ slip h
  drop s gone h := hdrop s gone h

/-- The tasks that stay were there. -/
theorem mem_register_dropTasks {s : Store} {gone : TaskRow → Bool} {pair : TaskId × Instant}
    (h : pair ∈ (s.dropTasks gone).register.tasks) :
    pair ∈ s.register.tasks ∧ ∃ row ∈ s.tasks, gone row = false ∧ pair = (row.id, row.createdAt) := by
  obtain ⟨row, hrow, rfl⟩ := List.mem_map.mp h
  obtain ⟨hmem, hstays⟩ := List.mem_filter.mp hrow
  exact ⟨List.mem_map.mpr ⟨row, hmem, rfl⟩, row, hmem, by simpa using hstays, rfl⟩

theorem numbered_dropTasks {s : Store} (h : s.register.Numbered) (gone : TaskRow → Bool) :
    (s.dropTasks gone).register.Numbered := by
  refine ⟨?_, fun pair hpair ↦ h.counted pair (mem_register_dropTasks hpair).1⟩
  exact List.Nodup.sublist ((List.filter_sublist.map _).map _) h.keyed

theorem numbered_make {r : Register} (h : r.Numbered) (createdAt : Instant) :
    Register.Numbered { r with
      tasks := r.tasks ++ [(r.nextTask, createdAt)], nextTask := r.nextTask + 1 } := by
  constructor
  · have hnew : r.nextTask ∉ r.tasks.map Prod.fst := by
      intro hmem
      obtain ⟨pair, hpair, hid⟩ := List.mem_map.mp hmem
      exact absurd (h.counted pair hpair) (by rw [hid]; exact lt_irrefl _)
    rw [Keyed, List.map_append, List.nodup_append]
    refine ⟨h.keyed, List.nodup_singleton _, fun a ha b hb ↦ ?_⟩
    rw [List.map_singleton, List.mem_singleton] at hb
    have hfresh : b = r.nextTask := hb
    exact fun hsame ↦ hnew (hfresh ▸ hsame ▸ ha)
  · intro pair hpair
    rcases List.mem_append.mp hpair with hold | hnew
    · exact (h.counted pair hold).trans (Nat.lt_succ_self _)
    · rw [List.mem_singleton.mp hnew]
      exact Nat.lt_succ_self _

theorem slipsKeep_numbered : SlipsKeep (Carries Register.Numbered) :=
  slipsKeep_carries (fun _ createdAt h ↦ numbered_make h createdAt) (fun _ _ h ↦ ⟨h.keyed, h.counted⟩)
    fun _ gone h ↦ numbered_dropTasks h gone

theorem slipsKeep_remembers (slip : SlipRow) : SlipsKeep (Carries (Register.Remembers slip)) := by
  refine slipsKeep_carries (fun r createdAt h ↦ ?_) (fun r other h ↦ ?_) fun s gone h ↦ ?_
  · refine ⟨numbered_make h.numbered createdAt, h.known.trans (Nat.lt_succ_self _),
      h.kept.imp_right fun hgone pair hpair ↦ ?_⟩
    rcases List.mem_append.mp hpair with hold | hnew
    · exact hgone pair hold
    · rw [List.mem_singleton.mp hnew]
      exact h.known.ne'
  · exact ⟨⟨h.numbered.keyed, h.numbered.counted⟩, h.known, h.kept.imp_left (List.mem_append_left _)⟩
  · refine ⟨numbered_dropTasks h.numbered gone, h.known, ?_⟩
    rcases h.kept with hlogged | hgone
    · by_cases hdropped : ∃ row ∈ s.tasks, gone row = true ∧ row.id = slip.taskId
      · obtain ⟨row, hrow, hgone, hid⟩ := hdropped
        refine .inr fun pair hpair hsame ↦ ?_
        obtain ⟨hmem, other, hother, hstays, rfl⟩ := mem_register_dropTasks hpair
        have hkeyed : (s.tasks.map TaskRow.id).Nodup := by
          have h := h.numbered.keyed
          rwa [Keyed, Store.register, List.map_map] at h
        have hrows : row = other := List.inj_on_of_nodup_map hkeyed hrow hother (hid.trans hsame.symm)
        rw [hrows, hstays] at hgone
        cases hgone
      · refine .inl (List.mem_filter.mpr ⟨hlogged, ?_⟩)
        simpa using hdropped
    · exact .inr fun pair hpair ↦ hgone pair (mem_register_dropTasks hpair).1

theorem slipsKeep_dates (task : TaskId) (createdAt : Instant) :
    SlipsKeep (Carries (Register.Dates task createdAt)) := by
  refine slipsKeep_carries (fun r other h ↦ ?_) (fun r slip h ↦ ⟨h.known, h.dated⟩) fun s gone h ↦ ?_
  · refine ⟨h.known.trans (Nat.lt_succ_self _), fun pair hpair hsame ↦ ?_⟩
    rcases List.mem_append.mp hpair with hold | hnew
    · exact h.dated pair hold hsame
    · rw [List.mem_singleton.mp hnew] at hsame
      exact absurd hsame h.known.ne'
  · exact ⟨h.known, fun pair hpair ↦ h.dated pair (mem_register_dropTasks hpair).1⟩

/-! ### What is queued -/

/-- What makes out slips writes down those that nobody had, of tasks that are there, and answers with these or
fails. -/
theorem queueSlips_spec (slips : List SlipRow) (s : Store) :
    ∃ added, (queueSlips slips s).2 = { s with slips := s.slips ++ added } ∧ added ⊆ slips ∧ added.Nodup ∧
      (∀ slip ∈ added, slip ∉ s.slips ∧ ∃ row ∈ s.tasks, row.id = slip.taskId) ∧
        ∀ queued, (queueSlips slips s).1 = .ok queued → queued = added := by
  induction slips generalizing s with
  | nil => exact ⟨[], by simp [queueSlips], by simp [queueSlips]⟩
  | cons slip rest ih =>
    by_cases hpassed : (s.slipSent slip.taskId slip.uid slip.kind slip.anchorAt || (s.user slip.uid).isNone) = true
    · obtain ⟨added, hstore, hsub, hadded⟩ := ih s
      simp only [queueSlips, hpassed, if_true]
      exact ⟨added, hstore, fun other hother ↦ List.mem_cons_of_mem _ (hsub hother), hadded⟩
    · have hnew : slip ∉ s.slips := by
        intro hmem
        refine hpassed (Bool.or_eq_true_iff.mpr (.inl ?_))
        exact List.any_eq_true.mpr ⟨slip, hmem, beq_self_eq_true slip⟩
      cases hrow : s.taskRow slip.taskId with
      | none =>
        refine ⟨[], ?_⟩
        simp [queueSlips, hpassed, hrow]
      | some row =>
        obtain ⟨added, hstore, hsub, hnodup, hfresh, hanswer⟩ := ih { s with slips := s.slips ++ [slip] }
        refine ⟨slip :: added, ?_, ?_, ?_, ?_, ?_⟩
        · simp only [queueSlips, hpassed, hrow, Option.isNone_some, Bool.false_eq_true, if_false, hstore,
            List.append_assoc, List.singleton_append]
        · exact List.cons_subset_cons _ hsub
        · refine List.nodup_cons.mpr ⟨fun hmem ↦ ?_, hnodup⟩
          exact (hfresh slip hmem).1 (List.mem_append_right _ (List.mem_singleton_self _))
        · refine List.forall_mem_cons.mpr ⟨⟨hnew, row, List.mem_of_find?_eq_some hrow,
            Store.id_of_taskRow hrow⟩, fun other hother ↦ ?_⟩
          exact ⟨fun hmem ↦ (hfresh other hother).1 (List.mem_append_left _ hmem), (hfresh other hother).2⟩
        · intro queued hqueued
          simp only [queueSlips, hpassed, hrow, Option.isNone_some, Bool.false_eq_true, if_false] at hqueued
          cases hlater : (queueSlips rest { s with slips := s.slips ++ [slip] }).1 with
          | error error =>
            rw [hlater] at hqueued
            cases hqueued
          | ok later =>
            rw [hlater] at hqueued
            obtain rfl := Except.ok.inj hqueued
            rw [hanswer later hlater]

/-- No slip is queued twice, each is remembered, and those of a start count from the creation of their
task. -/
structure Printing.Sound (p : Printing) : Prop where
  numbered : p.store.register.Numbered
  remembers : ∀ slip ∈ p.queued, p.store.register.Remembers slip
  starts : ∀ slip ∈ p.queued, slip.kind.1 = .onStart → p.store.register.Dates slip.taskId slip.anchorAt
  nodup : p.queued.Nodup
  once : ∀ a ∈ p.queued, ∀ b ∈ p.queued, a.kind.1 = .onStart → b.kind = a.kind → a.taskId = b.taskId →
    a.uid = b.uid → a = b

namespace Printing.Sound

variable {p : Printing}

/-- A section of the daemon. -/
theorem daemon (h : p.Sound) {α : Type} (body : Section α) (outside : Outside) :
    Sound { p with store := (semantics.run body outside p.store).2 } where
  numbered := slipsKeep_numbered.semantics_run body outside p.store h.numbered
  remembers slip hslip :=
    (slipsKeep_remembers slip).semantics_run body outside p.store (h.remembers slip hslip)
  starts slip hslip hstart :=
    (slipsKeep_dates _ _).semantics_run body outside p.store (h.starts slip hslip hstart)
  nodup := h.nodup
  once := h.once

/-- Slips are made out of copies that know when their tasks were made. -/
theorem make (h : p.Sound) {slips : List SlipRow}
    (hstarts : ∀ slip ∈ slips, slip.kind.1 = .onStart → p.store.register.Dates slip.taskId slip.anchorAt) :
    (p.make slips).2.Sound := by
  obtain ⟨added, hstore, hsub, hnodup, hfresh, hanswer⟩ := queueSlips_spec slips p.store
  have hmade : (p.make slips).2 =
      ⟨{ p.store with slips := p.store.slips ++ added }, p.queued⟩ ∨ (p.make slips).2 =
        ⟨{ p.store with slips := p.store.slips ++ added }, p.queued ++ added⟩ := by
    rw [Printing.make, hstore]
    cases hqueued : (queueSlips slips p.store).1 with
    | error error => exact .inl (by simp)
    | ok queued => exact .inr (by simp [hanswer queued hqueued])
  have hlogged : ∀ slip ∈ p.queued, Register.Remembers slip
      ⟨p.store.register.tasks, p.store.slips ++ added, p.store.nextTask⟩ := fun slip hslip ↦
    ⟨⟨h.numbered.keyed, h.numbered.counted⟩, (h.remembers slip hslip).known,
      (h.remembers slip hslip).kept.imp_left (List.mem_append_left _)⟩
  rcases hmade with hmade | hmade
  · rw [hmade]
    exact ⟨⟨h.numbered.keyed, h.numbered.counted⟩, hlogged, fun slip hslip hstart ↦
      ⟨(h.starts slip hslip hstart).known, (h.starts slip hslip hstart).dated⟩, h.nodup, h.once⟩
  · have hthere (slip : SlipRow) (hslip : slip ∈ added) :
        ∃ createdAt, (slip.taskId, createdAt) ∈ p.store.register.tasks := by
      obtain ⟨-, row, hrow, hid⟩ := hfresh slip hslip
      exact ⟨row.createdAt, List.mem_map.mpr ⟨row, hrow, by rw [hid]⟩⟩
    have hdates (slip : SlipRow) (hslip : slip ∈ p.queued ++ added) (hstart : slip.kind.1 = .onStart) :
        p.store.register.Dates slip.taskId slip.anchorAt :=
      (List.mem_append.mp hslip).elim (fun hold ↦ h.starts slip hold hstart)
        fun hnew ↦ hstarts slip (hsub hnew) hstart
    rw [hmade]
    refine ⟨⟨h.numbered.keyed, h.numbered.counted⟩, fun slip hslip ↦ ?_, fun slip hslip hstart ↦
      ⟨(hdates slip hslip hstart).known, (hdates slip hslip hstart).dated⟩, ?_, ?_⟩
    · rcases List.mem_append.mp hslip with hold | hnew
      · exact hlogged slip hold
      · obtain ⟨createdAt, hpair⟩ := hthere slip hnew
        exact ⟨⟨h.numbered.keyed, h.numbered.counted⟩, h.numbered.counted _ hpair,
          .inl (List.mem_append_right _ hnew)⟩
    · -- What was queued before is in the log, or its task is gone.
      refine List.nodup_append.mpr ⟨h.nodup, hnodup, fun a ha b hb ↦ ?_⟩
      rintro rfl
      rcases (h.remembers a ha).kept with hslip | hgone
      · exact (hfresh a hb).1 hslip
      · obtain ⟨createdAt, hpair⟩ := hthere a hb
        exact hgone _ hpair rfl
    · intro a ha b hb hstart hkind htask huid
      have hstart' : b.kind.1 = .onStart := hkind ▸ hstart
      by_cases hold : a ∈ p.queued ∧ b ∈ p.queued
      · exact h.once a hold.1 b hold.2 hstart hkind htask huid
      · -- One of them is new, so the task is there, and both count from its creation.
        obtain ⟨createdAt, hpair⟩ : ∃ createdAt, (a.taskId, createdAt) ∈ p.store.register.tasks := by
          rcases List.mem_append.mp ha with hbefore | hnew
          · have hb' := (List.mem_append.mp hb).resolve_left fun hbefore' ↦ hold ⟨hbefore, hbefore'⟩
            rw [htask]
            exact hthere b hb'
          · exact hthere a hnew
        have hone := (hdates a ha hstart).dated _ hpair rfl
        have htwo := (hdates b hb hstart').dated _ hpair htask
        cases a
        cases b
        simp_all

end Printing.Sound

/-! ### Copies know when their tasks were made -/

theorem owedSlips_spec {rule : PrintRule} {task : Task} {board : Board} {anchor : Instant} {slip : SlipRow}
    (h : slip ∈ owedSlips rule task board anchor) :
    slip.taskId = task.id ∧ slip.kind = sentKind rule ∧ slip.anchorAt = anchor := by
  obtain ⟨uid, -, rfl⟩ := List.mem_map.mp h
  exact ⟨rfl, rfl, rfl⟩

theorem sentKind_onStart {rule : PrintRule} (h : (sentKind rule).1 = .onStart) : rule.when = .onStart := by
  unfold sentKind at h
  cases hwhen : rule.when with
  | onStart => rfl
  | onCreate =>
    rw [hwhen] at h
    cases h
  | beforeDue lead =>
    rw [hwhen] at h
    cases h

/-- A slip on start counts from the creation of the task, whoever fires it. -/
theorem createdAt_of_fired {board : Board} {task : Task} {trigger : AutoprintTrigger} {slip : SlipRow}
    (h : slip ∈ firedSlips board task trigger) : slip.taskId = task.id ∧ slip.anchorAt = task.createdAt := by
  obtain ⟨rule, -, howed⟩ := List.mem_flatMap.mp h
  exact ⟨(owedSlips_spec howed).1, (owedSlips_spec howed).2.2⟩

theorem createdAt_of_dated {now : Instant} {grace : ℕ} {board : Board} {task : Task} {slip : SlipRow}
    (h : slip ∈ datedSlips now grace board task) (hstart : slip.kind.1 = .onStart) :
    slip.taskId = task.id ∧ slip.anchorAt = task.createdAt := by
  obtain ⟨planned, hplanned, howed⟩ := List.mem_flatMap.mp h
  obtain ⟨rule, -, hplan⟩ := List.mem_filterMap.mp (List.mem_of_mem_filter hplanned)
  obtain ⟨htask, hkind, hanchor⟩ := owedSlips_spec howed
  rw [hkind] at hstart
  refine ⟨htask, hanchor.trans ?_⟩
  unfold planRulePrint at hplan
  cases hwhen : rule.when with
  | onCreate =>
    rw [hwhen] at hplan
    cases hplan
  | onStart =>
    rw [hwhen] at hplan
    obtain ⟨start, -, rfl⟩ := Option.map_eq_some_iff.mp hplan
    rfl
  | beforeDue lead =>
    rw [hwhen] at hplan
    obtain ⟨due, -, hplan⟩ := Option.bind_eq_some_iff.mp hplan
    obtain ⟨moment, -, rfl⟩ := Option.map_eq_some_iff.mp hplan
    rw [sentKind_onStart hstart] at hwhen
    cases hwhen

/-- The store knows the task by the time of its creation. -/
def Printing.Knows (task : Task) (p : Printing) : Prop := p.store.register.Dates task.id task.createdAt

/-- What makes out slips goes by a copy of a task that was stored. -/
def SlipSection.Honest : (α : Type) → SlipSection α → Printing → Prop
  | _, .step (.fire _ task _), p | _, .step (.queueDated _ _ _ task), p => p.Knows task
  | _, _, _ => True

/-- Ids stay apart, and nothing makes the store know less. -/
structure Printing.Rely (p p' : Printing) : Prop where
  numbered : p.store.register.Numbered → p'.store.register.Numbered
  knows : ∀ task, p.Knows task → p'.Knows task

instance : Std.Refl Printing.Rely := ⟨fun _ ↦ ⟨id, fun _ ↦ id⟩⟩

instance : IsTrans Printing Printing.Rely :=
  ⟨fun _ _ _ hone htwo ↦ ⟨htwo.numbered ∘ hone.numbered, fun task ↦ htwo.knows task ∘ hone.knows task⟩⟩

theorem rely_make (p : Printing) (slips : List SlipRow) : p.Rely (p.make slips).2 := by
  obtain ⟨added, hstore, -⟩ := queueSlips_spec slips p.store
  have hregister : (p.make slips).2.store.register =
      ⟨p.store.register.tasks, p.store.slips ++ added, p.store.nextTask⟩ := congrArg Store.register hstore
  refine ⟨fun h ↦ ?_, fun task h ↦ ?_⟩
  · rw [hregister]
    exact ⟨h.keyed, h.counted⟩
  · rw [Printing.Knows, hregister]
    exact ⟨h.known, h.dated⟩

theorem rely_run {α : Type} (body : SlipSection α) (outside : Outside) (p : Printing) :
    p.Rely (body.run outside p).2 := by
  cases body with
  | daemon body =>
    exact ⟨slipsKeep_numbered.semantics_run body outside p.store,
      fun task ↦ (slipsKeep_dates _ _).semantics_run body outside p.store⟩
  | step body =>
    cases body with
    | datedRuleTasks => exact refl_of _ _
    | fire board task trigger => exact rely_make p _
    | queueDated now grace board task => exact rely_make p _

theorem Printing.Sound.run {p : Printing} (h : p.Sound) {α : Type} {body : SlipSection α}
    (hbody : SlipSection.Honest α body p) (outside : Outside) : (body.run outside p).2.Sound := by
  cases body with
  | daemon body => exact h.daemon body outside
  | step body =>
    cases body with
    | datedRuleTasks => exact h
    | fire board task trigger =>
      refine h.make fun slip hslip _ ↦ ?_
      rw [(createdAt_of_fired hslip).1, (createdAt_of_fired hslip).2]
      exact hbody
    | queueDated now grace board task =>
      refine h.make fun slip hslip hstart ↦ ?_
      rw [(createdAt_of_dated hslip hstart).1, (createdAt_of_dated hslip hstart).2]
      exact hbody

/-! ### What jobs rely on -/

abbrev SlipMeets {ρ : Type} (call : Thread SlipSection AppError ρ) (Q : ρ → Printing → Prop)
    (p : Printing) : Prop :=
  call.Meets slipSemantics Printing.Rely SlipSection.Honest Q p

/-- A stored row is one the register has. -/
theorem dates_of_mem {s : Store} (h : s.register.Numbered) {row : TaskRow} (hrow : row ∈ s.tasks) :
    s.register.Dates row.id row.createdAt := by
  have hpair : (row.id, row.createdAt) ∈ s.register.tasks := List.mem_map.mpr ⟨row, hrow, rfl⟩
  refine ⟨h.counted _ hpair, fun pair hother hsame ↦ ?_⟩
  rw [List.inj_on_of_nodup_map h.keyed hother hpair hsame]

/-- A task as it is loaded is one the store knows. -/
theorem knows_hydrate {p : Printing} (h : p.store.register.Numbered) {row : TaskRow}
    (hrow : row ∈ p.store.tasks) : p.Knows (p.store.hydrate row) := dates_of_mem h hrow

/-- A section that goes by no copy of a task, with what it answers. -/
theorem slipMeets_call {α : Type} {body : SlipSection α} {Q : α → Printing → Prop} {p : Printing}
    (hbody : ∀ p', p.Rely p' → SlipSection.Honest α body p')
    (hQ : ∀ p' outside a, p.Rely p' → (body.run outside p').1 = .ok a → Q a (body.run outside p').2) :
    SlipMeets (Thread.call body) Q p :=
  Thread.meets_call fun p' hlater ↦ ⟨hbody p' hlater, fun outside a ha ↦ hQ p' outside a hlater ha⟩

/-- A job of the daemon goes by no copy at all. -/
theorem slipMeets_daemon (job : Job) (p : Printing) :
    SlipMeets (SlipJob.call (.daemon job)) (fun _ _ ↦ True) p := by
  have honly : (job.call.lift SlipSection.daemon).Only fun _ body ↦ ∃ b, body = SlipSection.daemon b :=
    Thread.only_lift (fun _ b ↦ ⟨b, rfl⟩) _
  refine (honly.bind fun _ ↦ Thread.only_pure _).meets fun α body p hbody ↦ ?_
  obtain ⟨b, rfl⟩ := hbody
  trivial

theorem slipMeets_autoprintRules (board : Board) (task : TaskId) (trigger : AutoprintTrigger) {p : Printing}
    (h : p.store.register.Numbered) :
    SlipMeets (autoprintRules board task trigger) (fun _ _ ↦ True) p := by
  have hload : SlipMeets (Thread.call (.daemon (.read (.task task))) : Thread SlipSection AppError Task)
      (fun loaded p ↦ p.Knows loaded) p := by
    refine slipMeets_call (fun _ _ ↦ trivial) fun p' outside loaded hlater hloaded ↦ ?_
    have hstore : (semantics.run (.read (.task task)) outside p'.store).2 = p'.store := snd_run_read _ _ _
    have hrun : commit (Query.work outside (.task task)) p'.store = (.ok loaded, p'.store) :=
      Prod.ext hloaded hstore
    obtain ⟨found, hfound, hsame⟩ := requireTask_eq_ok.mp (commit_eq_ok hrun)
    obtain ⟨rfl, -⟩ := Prod.ext_iff.mp hsame
    obtain ⟨row, hrow, rfl⟩ := Option.map_eq_some_iff.mp hfound
    change Printing.Knows _ { p' with store := (semantics.run (.read (.task task)) outside p'.store).2 }
    rw [hstore]
    exact knows_hydrate (hlater.numbered h) (List.mem_of_find?_eq_some hrow)
  refine .bind hload fun loaded p' hknown ↦ .bind (Thread.Meets.attempt (Q := fun _ _ ↦ True) ?_)
    fun _ _ _ ↦ Thread.meets_pure.mpr trivial
  exact slipMeets_call (fun p'' hlater ↦ hlater.knows loaded hknown) fun _ _ _ _ _ ↦ trivial

theorem slipMeets_printDatedTasks (grace : ℕ) {p : Printing} (h : p.store.register.Numbered) :
    SlipMeets (printDatedTasks grace) (fun _ _ ↦ True) p := by
  have hlist : SlipMeets (Thread.call (.step .datedRuleTasks) : Thread SlipSection AppError _)
      (fun listed p ↦ ∀ task ∈ listed.2, p.Knows task) p := by
    refine slipMeets_call (fun _ _ ↦ trivial) fun p' outside listed hlater hlisted task htask ↦ ?_
    obtain rfl := Except.ok.inj hlisted
    obtain ⟨row, hrow, rfl⟩ := List.mem_map.mp htask
    exact knows_hydrate (hlater.numbered h) (List.mem_of_mem_filter hrow)
  refine .bind hlist fun listed p' hlisted ↦ .bind (M := fun _ p ↦ ∀ task ∈ listed.2, p.Knows task)
    (.each (fun task htask p'' hknown ↦ ?_) hlisted) fun _ _ _ ↦ Thread.meets_pure.mpr trivial
  refine .bind (M := fun _ p ↦ ∀ task ∈ listed.2, p.Knows task) ?_ fun board p''' hknown' ↦
    .bind (M := fun _ p ↦ ∀ task ∈ listed.2, p.Knows task) ?_ fun _ _ hlast ↦ Thread.meets_pure.mpr hlast
  · exact slipMeets_call (fun _ _ ↦ trivial) fun q outside _ hlater _ other hother ↦
      (rely_run _ outside q).knows other (hlater.knows other (hknown other hother))
  · exact slipMeets_call (fun q hlater ↦ hlater.knows task (hknown' task htask))
      fun q outside _ hlater _ other hother ↦
        (rely_run _ outside q).knows other (hlater.knows other (hknown' other hother))

theorem slipMeets_call_job (job : SlipJob) {p : Printing} (h : p.store.register.Numbered) :
    SlipMeets job.call (fun _ _ ↦ True) p := by
  cases job with
  | daemon job => exact slipMeets_daemon job p
  | autoprint board task trigger => exact slipMeets_autoprintRules board task trigger h
  | printDated grace => exact slipMeets_printDatedTasks grace h

theorem sound_fresh : Printing.Sound ⟨Store.empty, []⟩ where
  numbered := ⟨List.nodup_nil, fun _ h ↦ (List.not_mem_nil h).elim⟩
  remembers _ h := (List.not_mem_nil h).elim
  starts _ h := (List.not_mem_nil h).elim
  nodup := List.nodup_nil
  once _ h := (List.not_mem_nil h).elim

/-- However sections of passes, moves, edits and everything else come between each other, no slip is queued
twice, and of the slips on start of a task one at most goes to a person on a paper. -/
theorem queued_atMostOnce (jobs : List SlipJob) (schedule : List (ℕ × Outside)) :
    let queued := ((printFrom jobs).play slipSemantics schedule).state.queued
    (∀ slip, queued.count slip ≤ 1) ∧
      ∀ task uid paper, (queued.countP fun slip ↦
        slip.taskId == task && slip.uid == uid && slip.kind == (.onStart, paper)) ≤ 1 := by
  intro queued
  have hjobs : ∀ (i : ℕ) (call : SlipCall), (printFrom jobs).threads[i]? = some call →
      SlipMeets call (fun _ _ ↦ True) (printFrom jobs).state := by
    intro i call hcall
    obtain ⟨job, -, rfl⟩ := List.mem_map.mp (List.mem_of_getElem? hcall)
    exact slipMeets_call_job job sound_fresh.numbered
  have hsound : ((printFrom jobs).play slipSemantics schedule).state.Sound :=
    ((Pool.reaches_play (printFrom jobs) schedule).meets (I := Printing.Sound) (fun _ _ _ _ _ _ ↦ trivial)
      (fun _ _ _ outside p _ hbody hp ↦ ⟨hp.run hbody outside, rely_run _ outside p⟩) sound_fresh hjobs).1
  refine ⟨fun slip ↦ List.nodup_iff_count_le_one.mp hsound.nodup slip, fun task uid paper ↦ ?_⟩
  refine countP_le_one hsound.nodup fun a ha b hb hpa hpb ↦ ?_
  simp only [Bool.and_eq_true, beq_iff_eq] at hpa hpb
  obtain ⟨⟨htask, huid⟩, hkind⟩ := hpa
  obtain ⟨⟨htask', huid'⟩, hkind'⟩ := hpb
  exact hsound.once a ha b hb (by rw [hkind]) (hkind'.trans hkind.symm) (htask.trans htask'.symm)
    (huid.trans huid'.symm)

end Taskologic.Daemon
