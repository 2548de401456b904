import Taskologic.Daemon.Programs
import Taskologic.Daemon.Handlers

/-!
# Waiting for other steps

A step can wait for other steps besides the one that made its task: their latest tasks go into the dependency list too.
For each of them the engine puts in one task, the last one listed among those of the greatest iteration that were not
skipped. So the new task waits for all of a group exactly when the group has no other open end: each of its tasks is the
one that triggered the event or has none of the group after it (`waits_iff`). What is in the list does hold the new task
back (`moveTaskBy_finished_of_open`).
-/

set_option autoImplicit false
set_option relaxedAutoImplicit false

namespace Taskologic.Daemon

open Taskologic.Core Taskologic.Library

/-! ### The latest tasks of a step -/

variable {tasks : List StepTask} {key : Text} {t : StepTask}

/-- A task of the latest go at a step that was not skipped. -/
def LatestLive (tasks : List StepTask) (key : Text) (t : StepTask) : Prop :=
  t ∈ tasks ∧ t.step = key ∧ t.skipped = false ∧ ∀ other ∈ tasks, other.step = key → other.iteration ≤ t.iteration

/-- No task of the latest go at a step comes after a task on the list of the run. -/
def IsLast (tasks : List StepTask) (key : Text) (t : StepTask) : Prop :=
  ∀ before after, tasks = before ++ t :: after → ∀ other ∈ after, ¬ LatestLive tasks key other

/-- What of a step goes into a dependency list, if anything: one task. -/
theorem latest_eq_some_iff : latest tasks key = some t ↔ ∃ before after, tasks = before ++ t :: after ∧
    t.step = key ∧ t.skipped = false ∧
      (∀ other ∈ before, other.step = key → other.skipped = false → other.iteration ≤ t.iteration) ∧
        ∀ other ∈ after, other.step = key → other.skipped = false → other.iteration < t.iteration := by
  have hlive (other : StepTask) : (other.step == key && !other.skipped) = true ↔
      other.step = key ∧ other.skipped = false := by simp
  rw [latest, lastMaxBy_eq_some_iff]
  constructor
  · rintro ⟨front, back, hsplit, hfront, hback⟩
    obtain ⟨before, rest, rfl, hbefore, hrest⟩ := List.filter_eq_append_iff.mp hsplit
    obtain ⟨skipped, after, rfl, hskipped, ht, hafter⟩ := List.filter_eq_cons_iff.mp hrest
    refine ⟨before ++ skipped, after, by simp, ((hlive t).mp ht).1, ((hlive t).mp ht).2, ?_, ?_⟩
    · intro other hother hkey hopen
      rcases List.mem_append.mp hother with hother | hother
      · exact hfront other (hbefore ▸ List.mem_filter.mpr ⟨hother, (hlive other).mpr ⟨hkey, hopen⟩⟩)
      · exact absurd ((hlive other).mpr ⟨hkey, hopen⟩) (hskipped other hother)
    · intro other hother hkey hopen
      exact hback other (hafter ▸ List.mem_filter.mpr ⟨hother, (hlive other).mpr ⟨hkey, hopen⟩⟩)
  · rintro ⟨before, after, rfl, hkey, hopen, hbefore, hafter⟩
    refine ⟨before.filter fun t ↦ t.step == key && !t.skipped, after.filter fun t ↦ t.step == key && !t.skipped,
      ?_, fun other hother ↦ ?_, fun other hother ↦ ?_⟩
    · rw [List.filter_append, List.filter_cons, if_pos ((hlive t).mpr ⟨hkey, hopen⟩)]
    · obtain ⟨hmem, hother⟩ := List.mem_filter.mp hother
      exact hbefore other hmem ((hlive other).mp hother).1 ((hlive other).mp hother).2
    · obtain ⟨hmem, hother⟩ := List.mem_filter.mp hother
      exact hafter other hmem ((hlive other).mp hother).1 ((hlive other).mp hother).2

/-- The last of the latest go is the one that is put in. -/
theorem latest_of_isLast (hlive : LatestLive tasks key t) (hlast : IsLast tasks key t) : latest tasks key = some t := by
  obtain ⟨hmem, hkey, hopen, hmax⟩ := hlive
  obtain ⟨before, after, hsplit⟩ := List.append_of_mem hmem
  refine latest_eq_some_iff.mpr ⟨before, after, hsplit, hkey, hopen, fun other hother hsame _ ↦ ?_,
    fun other hother hsame hlive ↦ ?_⟩
  · exact hmax other (by simp [hsplit, hother]) hsame
  · have hin : other ∈ tasks := by simp [hsplit, hother]
    refine lt_of_le_of_ne (hmax other hin hsame) fun heq ↦ hlast before after hsplit other hother ?_
    exact ⟨hin, hsame, hlive, fun third hthird hthirdKey ↦ heq ▸ hmax third hthird hthirdKey⟩

/-- The one that is put in has no other of the latest go after it. -/
theorem isLast_of_latest (hkeyed : Keyed StepTask.taskId tasks) (h : latest tasks key = some t) :
    IsLast tasks key t := by
  obtain ⟨before, after, hsplit, hkey, -, -, hafter⟩ := latest_eq_some_iff.mp h
  intro before' after' hsplit' other hother hlive
  have hnodup : (before ++ t :: after).Nodup := hsplit ▸ hkeyed.of_map _
  have honce := List.nodup_append.mp hnodup
  have hbefore : t ∉ before := fun ht ↦ honce.2.2 t ht t List.mem_cons_self rfl
  have hsame := (List.append_cons_inj_of_notMem hbefore (List.nodup_cons.mp honce.2.1).1).mp (hsplit.symm.trans hsplit')
  have hlt := hafter other (hsame.2.2.symm ▸ hother) hlive.2.1 hlive.2.2.1
  have hle := hlive.2.2.2 t (by simp [hsplit]) hkey
  omega

/-- The only task of the latest go is the last one. -/
theorem isLast_of_lone (hkeyed : Keyed StepTask.taskId tasks) (hlone : ∀ other, LatestLive tasks key other → other = t) :
    IsLast tasks key t := by
  intro before after hsplit other hother hlive
  obtain rfl := hlone other hlive
  have hnodup : (before ++ other :: after).Nodup := hsplit ▸ hkeyed.of_map _
  exact (List.nodup_cons.mp (List.nodup_append.mp hnodup).2.1).1 hother

/-! ### What a new task depends on -/

/-- Leaving out equal neighbours leaves out no entry. -/
theorem mem_destutter_ne {ids : List TaskId} {id : TaskId} : id ∈ ids.destutter (· ≠ ·) ↔ id ∈ ids := by
  have hfrom : ∀ (ids : List TaskId) (first : TaskId), id ∈ ids.destutter' (· ≠ ·) first ↔ id = first ∨ id ∈ ids := by
    intro ids
    induction ids with
    | nil => simp
    | cons second ids ih =>
      intro first
      rw [List.destutter'_cons]
      split_ifs with hne
      · rw [List.mem_cons, ih, List.mem_cons]
      · obtain rfl := not_ne_iff.mp hne
        rw [ih, List.mem_cons, ← or_assoc, or_self]
  cases ids with
  | nil => simp
  | cons first ids => rw [List.destutter_cons', hfrom, List.mem_cons]

theorem mem_dependsOn_iff {trigger : Option TaskId} {step : Step} {id : TaskId} :
    id ∈ dependsOn tasks trigger step ↔
      trigger = some id ∨ ∃ key ∈ step.alsoAfter, ∃ t, latest tasks key = some t ∧ t.taskId = id := by
  rw [dependsOn, mem_destutter_ne, List.mem_append, Option.mem_toList, List.mem_filterMap]
  simp only [Option.map_eq_some_iff]

/-- Of the latest go at a step that is waited for, a new task depends on the task that triggered it and on the last. -/
theorem taskId_mem_dependsOn_iff {trigger : Option TaskId} {step : Step} (hkeyed : Keyed StepTask.taskId tasks)
    (hkey : key ∈ step.alsoAfter) (hlive : LatestLive tasks key t) :
    t.taskId ∈ dependsOn tasks trigger step ↔ trigger = some t.taskId ∨ IsLast tasks key t := by
  rw [mem_dependsOn_iff]
  refine or_congr_right ⟨?_, fun hlast ↦ ⟨key, hkey, t, latest_of_isLast hlive hlast, rfl⟩⟩
  rintro ⟨other, -, u, hlatest, hid⟩
  obtain ⟨before, after, hsplit, hstep, -⟩ := latest_eq_some_iff.mp hlatest
  obtain rfl : u = t := List.inj_on_of_nodup_map hkeyed (by simp [hsplit]) hlive.1 hid
  obtain rfl : other = key := hstep.symm.trans hlive.2.1
  exact isLast_of_latest hkeyed hlatest

/-- A step that makes anything makes a task. -/
theorem exists_mem_creationsOf (tasks : List StepTask) (started : Bool) (now : Instant) (zone : Zone)
    (trigger : Option TaskId) (step : Step) (index : ℕ) :
    ∃ creation ∈ creationsOf tasks started now zone trigger step index,
      creation.step = index ∧ creation.dependsOn = dependsOn tasks trigger step := by
  obtain ⟨entry, hentry⟩ := List.exists_mem_of_ne_nil _ (params_ne_nil step)
  exact ⟨_, List.mem_map_of_mem hentry, rfl, rfl⟩

/-- What is in the list holds a task back: it cannot be finished while a dependency is open. -/
theorem moveTaskBy_finished_of_open {s : Store} {task : Task} {dep : TaskId} {board : Board} {row : TaskRow}
    (hdep : (task.id, dep) ∈ s.deps) (hrow : s.taskRow dep = some row) (hopen : s.isOpen row = true)
    (hout : task.columnId ≠ board.finishedCol) (outside : Outside) (actor : Option Uid) (position : Option ℤ)
    (answer : Option Text) (result : Task × Store) :
    moveTaskBy outside actor board task board.finishedCol position false answer s ≠ .ok result := by
  intro h
  simp only [moveTaskBy, Tx.bind_eq_ok, Tx.read_eq_ok, Tx.lift_eq_ok, Prod.mk.injEq, if_true] at h
  obtain ⟨_, _, ⟨rfl, rfl⟩, plan, _, ⟨_, hplan, -⟩, -⟩ := h
  obtain ⟨-, -, hfree, -⟩ := planMove_eq_ok.mp (mapError_eq_ok.mp hplan)
  have hentering : enteringFinished board task board.finishedCol = true := by
    simp [enteringFinished, hout]
  have hmem : dep ∈ s.openDeps task.id := by
    rw [Store.openDeps, List.mem_insertionSort, List.mem_filter, mem_successors]
    exact ⟨hdep, by simp [hrow, hopen]⟩
  exact absurd (hfree hentering (List.ne_nil_of_mem hmem)) (by simp)

/-! ### Groups that are waited for -/

/-- A new task waits for the latest go at every step it also waits for: all of its tasks that were not skipped are on the
list, and while one of them is open the new task cannot be finished. -/
def WaitsForGroups (tasks : List StepTask) (step : Step) (creation : Creation) : Prop :=
  ∀ key ∈ step.alsoAfter, ∀ t, LatestLive tasks key t → t.taskId ∈ creation.dependsOn ∧
    ∀ (s : Store) (task : Task) (row : TaskRow), (∀ dep ∈ creation.dependsOn, (task.id, dep) ∈ s.deps) →
      s.taskRow t.taskId = some row → s.isOpen row = true →
        ∀ outside actor board position answer result, task.columnId ≠ board.finishedCol →
          moveTaskBy outside actor board task board.finishedCol position false answer s ≠ .ok result

/-- Every task of the latest go at a step that is waited for is the one that triggered the event, or the last of them. -/
def NoOtherEnd (steps : List Step) (tasks : List StepTask) (event : RunEvent) : Prop :=
  ∀ firing ∈ fire steps tasks event, ∀ step ∈ steps, step.awaits firing.fired = true → step.spent tasks = false →
    ∀ key ∈ step.alsoAfter, ∀ t, LatestLive tasks key t →
      firing.triggerTask = some t.taskId ∨ IsLast tasks key t

/-- What an event makes waits for whole groups exactly when these have no other end than the task that triggered it and
the last one. -/
theorem waits_iff (steps : List Step) (tasks : List StepTask) (started : Bool) (event : RunEvent) (now : Instant)
    (zone : Zone) (hkeyed : Keyed StepTask.taskId tasks) :
    (∀ creation ∈ (react steps tasks started event now zone).create, ∀ step, steps[creation.step]? = some step →
      WaitsForGroups tasks step creation) ↔ NoOtherEnd steps tasks event := by
  constructor
  · intro h firing hfiring step hstep hawaits hspent key hkey t hlive
    obtain ⟨index, hindex⟩ := List.mem_iff_getElem?.mp hstep
    obtain ⟨creation, hmade, rfl, hdepends⟩ := exists_mem_creationsOf tasks (started || event == .rootStarted) now zone
      firing.triggerTask step index
    have hcreate : creation ∈ (react steps tasks started event now zone).create := by
      rw [react_of_fire hfiring]
      exact mem_creations_iff.mpr ⟨step, hindex, hawaits, hspent, hmade⟩
    have hlisted := (h creation hcreate step hindex key hkey t hlive).1
    rw [hdepends] at hlisted
    exact (taskId_mem_dependsOn_iff hkeyed hkey hlive).mp hlisted
  · intro h creation hcreate step hstep key hkey t hlive
    have hlisted : t.taskId ∈ creation.dependsOn := by
      cases hfire : fire steps tasks event with
      | none =>
        rw [react_of_end hfire] at hcreate
        cases hcreate
      | some firing =>
        rw [react_of_fire hfire] at hcreate
        obtain ⟨step', hstep', hawaits, hspent, hmade⟩ := mem_creations_iff.mp hcreate
        obtain rfl := Option.some.inj (hstep.symm.trans hstep')
        obtain ⟨entry, -, hcreation⟩ := List.mem_map.mp hmade
        rw [← hcreation]
        exact (taskId_mem_dependsOn_iff hkeyed hkey hlive).mpr
          (h firing hfire step (List.mem_of_getElem? hstep) hawaits hspent key hkey t hlive)
    refine ⟨hlisted, fun s task row hdeps hrow hopen outside actor board position answer result hout ↦ ?_⟩
    exact moveTaskBy_finished_of_open (hdeps _ hlisted) hrow hopen hout outside actor position answer result

/-- The third waits for the second, which made two tasks. -/
def twoRooms : List Step :=
  [{ Step.default with key := rootKey, title := text "Clean", created := [] },
   { Step.default with key := text "1", title := text "Buy soap", created := [.withRoot] },
   { Step.default with
      key := text "2"
      title := text "Clean the"
      created := [.withRoot]
      fanOut := some [text "bath", text "hall"] },
   { Step.default with
      key := text "3"
      title := text "Air"
      created := [.finished (text "1")]
      alsoAfter := [text "2"] }]

/-- The soap is bought, and both rooms are still to be cleaned. -/
def soapBought : List StepTask :=
  [⟨rootKey, 1, none, 1, false, false, false, false⟩, ⟨text "1", 1, none, 2, true, false, true, false⟩,
   ⟨text "2", 1, text "bath", 3, false, false, true, false⟩, ⟨text "2", 1, text "hall", 4, false, false, true, false⟩]

/-- The first of two open rooms is left out. -/
theorem first_room_left_out : ∃ creation ∈ (react twoRooms soapBought true (.finished 2 none) 0 .utc).create,
    ∃ step, twoRooms[creation.step]? = some step ∧ creation.dependsOn = [2, 4] ∧
      ¬ WaitsForGroups soapBought step creation := by
  refine ⟨⟨3, 1, none, none, [2, 4], true⟩, by decide +kernel, _, rfl, rfl, fun h ↦ ?_⟩
  have hbath : LatestLive soapBought (text "2") ⟨text "2", 1, text "bath", 3, false, false, true, false⟩ := by
    refine ⟨by simp [soapBought], rfl, rfl, by decide +kernel⟩
  have hmem := (h (text "2") (by simp) _ hbath).1
  simp at hmem

/-- Of one room, the task is waited for. -/
theorem waits_iff_one_room : ∃ creation ∈ (react twoRooms (soapBought.take 3) true (.finished 2 none) 0 .utc).create,
    ∃ step, twoRooms[creation.step]? = some step ∧ creation.dependsOn = [2, 3] ∧
      WaitsForGroups (soapBought.take 3) step creation := by
  have hkeyed : Keyed StepTask.taskId (soapBought.take 3) := by decide +kernel
  refine ⟨⟨3, 1, none, none, [2, 3], true⟩, by decide +kernel, _, rfl, rfl, ?_⟩
  refine (waits_iff twoRooms _ true (.finished 2 none) 0 .utc hkeyed).mpr ?_ _ (by decide +kernel) _ rfl
  intro firing hfiring step hstep hawaits hspent key hkey t hlive
  right
  have hother : ∀ step ∈ twoRooms, step.alsoAfter ⊆ [text "2"] := by decide +kernel
  obtain rfl := List.mem_singleton.mp (hother step hstep hkey)
  have honly : ∀ u ∈ soapBought.take 3, u.step = text "2" → u.taskId = 3 := by decide +kernel
  refine isLast_of_lone hkeyed fun u hu ↦ List.inj_on_of_nodup_map hkeyed hu.1 hlive.1 ?_
  rw [honly u hu.1 hu.2.1, honly t hlive.1 hlive.2.1]

end Taskologic.Daemon
