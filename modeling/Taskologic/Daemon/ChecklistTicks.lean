import Taskologic.Daemon.Frames

/-!
# Ticking checklists side by side

A tick loads the task in one section and writes the whole checklist back in a later one, with the one item
ticked. What a checklist should hold after any number of ticks and saves is what replaying them gives, in
the order in which they were written (`TicksKeep`). It does when every tick that is written finds the
checklist as it was loaded, its own mark aside (`ticksKeep_of_current`), and two people who tick two items
at once lose a tick otherwise (`not_ticksKeep_twoTicks`). `tickItem_keeps_iff` is the exact condition for a
single tick.
-/

set_option autoImplicit false
set_option relaxedAutoImplicit false

namespace Taskologic.Daemon

open Taskologic.Core Taskologic.Library

/-! ### What is written -/

/-- One write into a checklist. -/
inductive ChecklistWrite where
  | tick (index : ℕ) (done : Bool)
  | replace (checklist : List ChecklistItem)
  deriving DecidableEq, Repr

/-- What a write makes of a checklist nobody else touches. -/
def ChecklistWrite.apply (items : List ChecklistItem) : ChecklistWrite → List ChecklistItem
  | tick index done => Daemon.tick items index done
  | replace checklist => checklist

/-- The write leaves the mark of an item alone. -/
def ChecklistWrite.Spares (index : ℕ) : ChecklistWrite → Prop
  | tick other _ => other ≠ index
  | replace _ => False

/-- One write after another. -/
def replay (items : List ChecklistItem) (writes : List ChecklistWrite) : List ChecklistItem :=
  writes.foldl ChecklistWrite.apply items

/-- What an update is to write into the checklist of a task. -/
def Update.checklistWrites (task : TaskId) {α : Type} : Update α → List ChecklistWrite
  | .tickItem _ _ loaded index done => if loaded.id = task then [.tick index done] else []
  | .saveTask _ _ loaded draft => if loaded.id = task then [.replace draft.checklist] else []
  | _ => []

def Section.checklistWrites (task : TaskId) {α : Type} : Section α → List ChecklistWrite
  | .read _ => []
  | .write update => update.checklistWrites task

/-- What a section that was answered with success has written. -/
def written (task : TaskId) (h : Pool.Happening Section Outside Store) : List ChecklistWrite :=
  if (h.answer semantics).isOk then h.body.checklistWrites task else []

/-- The stored checklist of a task. -/
def Store.checklist (s : Store) (task : TaskId) : Option (List ChecklistItem) :=
  (s.taskRow task).map TaskRow.checklist

/-- The requests of the law: ticks and saves, of any tasks and by anybody. -/
def Job.TicksOrSaves : Job → Prop
  | .request _ (.setChecklistItem _ _ _) | .request _ (.updateTask _ _ _) => True
  | _ => False

def Update.TicksOrSaves {α : Type} : Update α → Prop
  | .tickItem _ _ _ _ _ | .saveTask _ _ _ _ => True
  | _ => False

/-- Their sections. -/
def TickSection (α : Type) : Section α → Prop
  | .read _ => True
  | .write update => update.TicksOrSaves

/-- After a schedule of ticks and saves every checklist is what the accepted ones give one after
another. -/
def TicksKeep (s : Store) (jobs : List Job) (schedule : List (ℕ × Outside)) : Prop :=
  ∀ task, ((serve s jobs).play semantics schedule).state.checklist task =
    (s.checklist task).map fun items ↦
      replay items (((serve s jobs).log semantics schedule).flatMap (written task))

/-- A tick finds the checklist as it was loaded, the mark of its own item aside. -/
def Update.tickCurrent (s : Store) {α : Type} : Update α → Bool
  | .tickItem _ _ loaded index done => decide (index < loaded.checklist.length →
      ∀ items ∈ s.checklist loaded.id, tick loaded.checklist index done = tick items index done)
  | _ => true

/-- A tick that is about to be written is of the checklist as it is. -/
def tickCurrent (h : Pool.Happening Section Outside Store) : Bool :=
  match h.body with
  | .read _ => true
  | .write update => update.tickCurrent h.before

/-! ### One section -/

section Step

variable {s s' : Store} {task : TaskId}

theorem checklist_modifyTask {f : TaskRow → TaskRow} {id : TaskId}
    (htasks : s'.tasks = (s.modifyTask id f).tasks) (hf : ∀ row, (f row).id = row.id) :
    s'.checklist task =
      if task = id then (s.taskRow task).map fun row ↦ (f row).checklist else s.checklist task := by
  have hrow : s'.taskRow task = (s.modifyTask id f).taskRow task := by
    rw [Store.taskRow, htasks, Store.taskRow]
  rw [Store.checklist, hrow, Store.taskRow_modifyTask id task hf]
  split_ifs
  · rw [Option.map_map]
    rfl
  · rfl

/-- A tick writes what it made of the checklist it had loaded. -/
theorem checklist_tickItem {outside : Outside} {actor : Uid} {board : Board} {loaded a : Task}
    {index : ℕ} {done : Bool} (h : tickItem outside actor board loaded index done s = .ok (a, s')) :
    s'.checklist task = if task = loaded.id then
      (s.checklist task).map fun _ ↦ tick loaded.checklist index done else s.checklist task := by
  obtain ⟨-, -, htasks⟩ := tasks_tickItem h
  rw [checklist_modifyTask htasks fun _ ↦ rfl]
  split_ifs
  · rw [Store.checklist, Option.map_map]
    rfl
  · rfl

/-- An accepted tick leaves what ticking the stored checklist gives exactly when it was current. -/
theorem tickItem_keeps_iff {outside : Outside} {actor : Uid} {board : Board} {loaded a : Task}
    {index : ℕ} {done : Bool} (h : tickItem outside actor board loaded index done s = .ok (a, s')) :
    (s'.checklist loaded.id = (s.checklist loaded.id).map fun items ↦ tick items index done) ↔
      (Update.tickItem actor board loaded index done).tickCurrent s = true := by
  obtain ⟨hindex, ⟨row, hrow⟩, -⟩ := tasks_tickItem h
  have hitems : s.checklist loaded.id = some row.checklist := by rw [Store.checklist, hrow]; rfl
  rw [checklist_tickItem h, if_pos rfl, hitems, Update.tickCurrent, hitems]
  simp [hindex]

theorem checklist_saveTask {outside : Outside} {actor : Uid} {board : Board} {loaded a : Task}
    {draft : TaskDraft} (h : saveTask outside actor board loaded draft s = .ok (a, s')) :
    s'.checklist task = if task = loaded.id then (s.checklist task).map fun _ ↦ draft.checklist
      else s.checklist task := by
  rw [checklist_modifyTask (tasks_saveTask h).2 fun _ ↦ rfl]
  split_ifs
  · rw [Store.checklist, Option.map_map]
    rfl
  · rfl

/-- A section of the law writes nothing but ticks and saves that were answered with success. -/
theorem checklist_after {h : Pool.Happening Section Outside Store} (hsection : TickSection h.α h.body)
    (hcurrent : tickCurrent h = true) :
    (h.after semantics).checklist task =
      (h.before.checklist task).map fun items ↦ replay items (written task h) := by
  obtain ⟨body, outside, s⟩ := h
  cases body with
  | read query =>
    have hafter : Pool.Happening.after semantics ⟨.read query, outside, s⟩ = s :=
      snd_run_read query outside s
    rw [hafter]
    simp [written, Section.checklistWrites, replay]
  | write update =>
    cases hwork : update.work outside s with
    | error error =>
      have hrun : semantics.run (.write update) outside s = (.error error, s) := by
        simp [semantics, commit, Section.work, hwork]
      simp [Pool.Happening.after, written, Pool.Happening.answer, hrun, Except.isOk, Except.toBool,
        replay]
    | ok pair =>
      obtain ⟨a, s'⟩ := pair
      have hrun : semantics.run (.write update) outside s = (.ok a, s') := by
        simp [semantics, commit, Section.work, hwork]
      simp only [Pool.Happening.after, written, Pool.Happening.answer, hrun, Except.isOk,
        Except.toBool, if_true, Section.checklistWrites]
      cases update with
      | tickItem actor board loaded index done =>
        rw [checklist_tickItem hwork]
        by_cases htask : loaded.id = task
        · subst htask
          simp only [Update.checklistWrites, if_true, replay, List.foldl_cons, List.foldl_nil,
            ChecklistWrite.apply]
          refine Option.map_congr fun items hitems ↦ ?_
          exact of_decide_eq_true hcurrent (tasks_tickItem hwork).1 items hitems
        · simp [Update.checklistWrites, htask, Ne.symm htask, replay]
      | saveTask actor board loaded draft =>
        rw [checklist_saveTask hwork]
        by_cases htask : loaded.id = task
        · simp [Update.checklistWrites, htask, replay, ChecklistWrite.apply]
        · simp [Update.checklistWrites, htask, Ne.symm htask, replay]
      | _ => exact hsection.elim

end Step

/-! ### Any interleaving -/

theorem only_loadTask {allowed : (α : Type) → Section α → Prop}
    (hread : ∀ (α : Type) (query : Query α), allowed α (.read query)) (actor : Actor) (id : TaskId) :
    (loadTask actor id).Only allowed := by
  refine .bind (Thread.only_call.mpr (hread _ _)) fun task ↦ ?_
  refine .bind (Thread.only_call.mpr (hread _ _)) fun board ↦ ?_
  exact .bind (Thread.only_done _) fun _ ↦ Thread.only_pure _

/-- Ticks and saves run no other sections. -/
theorem only_call {job : Job} (hjob : job.TicksOrSaves) : job.call.Only TickSection := by
  cases job with
  | request actor req =>
    cases req with
    | setChecklistItem id index done =>
      refine .bind (only_loadTask (fun _ _ ↦ trivial) actor id) fun (board, task) ↦ ?_
      refine .bind (Thread.only_done _) fun _ ↦ ?_
      exact .bind (Thread.only_call.mpr trivial) fun _ ↦ Thread.only_pure _
    | updateTask id version draft =>
      refine .bind (only_loadTask (fun _ _ ↦ trivial) actor id) fun (board, task) ↦ ?_
      refine .bind (Thread.only_done _) fun _ ↦ ?_
      refine .bind Thread.only_check fun _ ↦ ?_
      exact .bind (Thread.only_call.mpr trivial) fun _ ↦ Thread.only_pure _
    | _ => exact hjob.elim
  | _ => exact hjob.elim

theorem only_serve {s : Store} {jobs : List Job} (hjobs : ∀ job ∈ jobs, job.TicksOrSaves) :
    ∀ thread ∈ (serve s jobs).threads, thread.Only TickSection := by
  intro thread hthread
  obtain ⟨job, hjob, rfl⟩ := List.mem_map.mp hthread
  exact only_call (hjobs job hjob)

/-- Along a trail of current ticks and saves every write is made on what the ones before left. -/
theorem checklist_trail {s s' : Store} {log : List (Pool.Happening Section Outside Store)}
    (htrail : Pool.Trail semantics s log s') (task : TaskId)
    (hsections : ∀ h ∈ log, TickSection h.α h.body) (hcurrent : ∀ h ∈ log, tickCurrent h = true) :
    s'.checklist task =
      (s.checklist task).map fun items ↦ replay items (log.flatMap (written task)) := by
  induction htrail with
  | nil s => simp [replay]
  | @cons h rest s'' htail ih =>
    have hone : (h.after semantics).checklist task =
        (h.before.checklist task).map fun items ↦ replay items (written task h) :=
      checklist_after (hsections h List.mem_cons_self) (hcurrent h List.mem_cons_self)
    rw [ih (fun h hmem ↦ hsections h (List.mem_cons_of_mem _ hmem))
      (fun h hmem ↦ hcurrent h (List.mem_cons_of_mem _ hmem)), hone, Option.map_map]
    refine Option.map_congr fun items _ ↦ ?_
    simp [replay, List.foldl_append]

/-- What is replayed after a tick leaves its mark when nothing writes to the item any more. -/
theorem done_of_replay {items : List ChecklistItem} {earlier later : List ChecklistWrite} {index : ℕ}
    {done : Bool} (hspares : ∀ write ∈ later, write.Spares index) :
    ∀ item ∈ (replay items (earlier ++ .tick index done :: later))[index]?, item.done = done := by
  have hlater : ∀ items : List ChecklistItem, (∀ item ∈ items[index]?, item.done = done) →
      ∀ item ∈ (replay items later)[index]?, item.done = done := by
    induction later with
    | nil => exact fun items hitems ↦ hitems
    | cons write rest ih =>
      intro items hitems
      refine ih (fun w hw ↦ hspares w (List.mem_cons_of_mem _ hw)) _ ?_
      cases write with
      | tick other mark =>
        have hother : other ≠ index := hspares (.tick other mark) List.mem_cons_self
        simpa [ChecklistWrite.apply, tick, List.getElem?_modify, hother] using hitems
      | replace checklist => exact (hspares (.replace checklist) List.mem_cons_self).elim
  rw [replay, List.foldl_append, List.foldl_cons]
  refine hlater _ fun item hitem ↦ ?_
  simp only [ChecklistWrite.apply, tick, List.getElem?_modify, if_true, Option.mem_def,
    Option.map_eq_map, Option.map_eq_some_iff] at hitem
  obtain ⟨old, -, rfl⟩ := hitem
  rfl

/-- Ticks that are current when they are written, side by side with any saves, never clobber: every
checklist is what the accepted writes make of it one after another, so the mark of an item is the last
one written to it. -/
theorem ticksKeep_of_current {s : Store} {jobs : List Job} {schedule : List (ℕ × Outside)}
    (hjobs : ∀ job ∈ jobs, job.TicksOrSaves)
    (hcurrent : ∀ h ∈ (serve s jobs).log semantics schedule, tickCurrent h = true) :
    TicksKeep s jobs schedule ∧
      ∀ (task : TaskId) (earlier later : List ChecklistWrite) (index : ℕ) (done : Bool),
        ((serve s jobs).log semantics schedule).flatMap (written task) =
          earlier ++ .tick index done :: later →
        (∀ write ∈ later, write.Spares index) →
        ∀ items ∈ ((serve s jobs).play semantics schedule).state.checklist task,
          ∀ item ∈ items[index]?, item.done = done := by
  have hkeep : TicksKeep s jobs schedule := fun task ↦
    checklist_trail (Pool.trail_log _ schedule) task (Pool.only_log (only_serve hjobs)) hcurrent
  refine ⟨hkeep, fun task earlier later index done hwrites hspares items hitems ↦ ?_⟩
  rw [hkeep task, hwrites, Option.mem_def, Option.map_eq_some_iff] at hitems
  obtain ⟨old, -, rfl⟩ := hitems
  exact done_of_replay hspares

/-- A task with two things to tick. -/
def twoItems : Store :=
  oneTask { TaskDraft.default with checklist := [⟨text "Mill", false⟩, ⟨text "Paint", false⟩] }

/-- Two people tick one item each. -/
def twoTicks : List Job :=
  [.request ⟨1, false⟩ (.setChecklistItem 1 0 true), .request ⟨2, false⟩ (.setChecklistItem 1 1 true)]

/-- One after the other. -/
theorem ticksKeep_twoTicks_inTurn :
    TicksKeep twoItems twoTicks ([0, 0, 0, 1, 1, 1].map fun i ↦ (i, .still 0)) :=
  (ticksKeep_of_current (by simp [twoTicks, Job.TicksOrSaves])
    (List.all_eq_true.mp (by decide +kernel))).1

/-- Both load the task before either writes: the first tick is gone. -/
theorem not_ticksKeep_twoTicks :
    ¬ TicksKeep twoItems twoTicks ([0, 0, 1, 1, 0, 1].map fun i ↦ (i, .still 0)) := by
  intro h
  have hlost := h 1
  revert hlost
  decide +kernel

end Taskologic.Daemon
