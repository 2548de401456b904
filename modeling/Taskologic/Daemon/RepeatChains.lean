import Taskologic.Daemon.RepeatFrames
import Taskologic.Daemon.RepeatDrafts
import Taskologic.Library.Lineage

/-!
# Chains of repeating tasks

The scheduler hands a repetition on from copy to copy, and archiving and restoring switch it off and on. A
chain is a task with the copies made from it, by the log of a run (`lineage`). The repetition of a chain is
active on one task at most, and no task is copied twice, as long as copies are made of tasks whose
repetition is active and nothing a copy was made of is restored or given a rule again: `oneLive_of_owned`.
A repetition that is stopped on the task that carries it stays stopped, and no copy is made of what was
replaced, as long as besides the copies are made from what is stored: `staysStopped_of_current`.

Neither is so in general. A pass of the scheduler carries copies of tasks from one section to another, and
restoring a task does not ask whether its chain has moved on.
-/

set_option autoImplicit false
set_option relaxedAutoImplicit false

namespace Taskologic.Daemon

open Taskologic.Core Taskologic.Library

/-! ### Chains -/

/-- The task and the copy, when a copy is made. -/
def Section.copies : {α : Type} → Section α → Except AppError α → Option (TaskId × TaskId)
  | _, .write (.spawnRepeat _ _ task), .ok created => some (task.id, created.id)
  | _, _, _ => none

/-- The task that a request stops the repetition of, going by the task as it was loaded: by name, by a
save that leaves out the rule, or by a deletion. -/
def Section.stops : {α : Type} → Section α → Except AppError α → Option TaskId
  | _, .write (.endRepeat _ _ task), .ok _ => some task.id
  | _, .write (.saveTask _ _ task draft), .ok _ =>
    if task.repeats.isSome && draft.repeats.isNone then some task.id else none
  | _, .write (.deleteTask _ _ task), .ok _ => if task.repeats.isSome then some task.id else none
  | _, _, _ => none

/-- The task that is given a rule or restored. -/
def Section.revives : {α : Type} → Section α → Except AppError α → Option TaskId
  | _, .write (.saveTask _ _ task draft), .ok _ => if draft.repeats.isSome then some task.id else none
  | _, .write (.bringBack _ _ task _), .ok _ => some task.id
  | _, _, _ => none

/-- A copy has the text and the rule of the task as it is stored when the copy is made. -/
def Section.FromStored (outside : Outside) (s : Store) :
    {α : Type} → Section α → Except AppError α → Prop
  | _, .write (.spawnRepeat board firstCol task), .ok created =>
    ∃ stored shortId position, s.task task.id = some stored ∧ created.repeats = stored.repeats ∧
      created.toTaskRow = newTaskRow created.id shortId position board firstCol
        (nextInstance stored board outside.now) task.createdBy task.templateId outside.now
  | _, _, _ => True

namespace Happened

variable (h : Happened)

def copies : Option (TaskId × TaskId) := h.body.copies (h.answer semantics)

/-- The repetition of a task is stopped: a request does so, or the repetition was active and is not any
more, and has not been handed on to a copy. -/
def Stops (task : TaskId) : Prop :=
  h.body.stops (h.answer semantics) = some task ∨
    copies h = none ∧ h.before.RepeatsNow task ∧ ¬ (h.after semantics).RepeatsNow task

def revives : Option TaskId := h.body.revives (h.answer semantics)

def FromStored : Prop := h.body.FromStored h.input h.before (h.answer semantics)

end Happened

/-- The lineage of the chains, with what a section adds to it. -/
def handOn (chains : Lineage TaskId) (h : Happened) : Lineage TaskId := (Happened.copies h).toList ++ chains

/-- The chains of a run, by its log. -/
def lineage (log : List Happened) : Lineage TaskId := log.foldl handOn []

/-- Of each chain at most one task has an active repetition. -/
def OneLive (chains : Lineage TaskId) (s : Store) : Prop :=
  ∀ a b, s.RepeatsNow a → s.RepeatsNow b → chains.Kin a b → a = b

/-- No task is copied twice. -/
def FiresOnce (chains : Lineage TaskId) : Prop :=
  ∀ task a b, (task, a) ∈ chains → (task, b) ∈ chains → a = b

/-- Once the repetition of a task has been stopped, no copy is made of any task of the chain and none of
them has an active repetition, until one of them is given a rule or restored. -/
def StaysStopped (log : List Happened) (s : Store) : Prop :=
  ∀ past h since task, log = past ++ h :: since → Happened.Stops h task →
    Pool.Along handOn (fun chains later ↦ ∀ other ∈ Happened.revives later, ¬ chains.Kin other task)
      (lineage (past ++ [h])) since →
    (∀ other, s.RepeatsNow other → ¬ (lineage log).Kin other task) ∧
      Pool.Along handOn (fun chains later ↦ ∀ pair ∈ Happened.copies later, ¬ chains.Kin pair.1 task)
        (lineage (past ++ [h])) since

/-! ### Conditions on sections -/

/-- A copy is made of a task whose repetition is active, and what a copy was made of is neither restored
nor given a rule. -/
def Section.Owned (chains : Lineage TaskId) (s : Store) : {α : Type} → Section α → Prop
  | _, .write (.spawnRepeat _ _ task) => s.RepeatsNow task.id
  | _, .write (.saveTask _ _ task draft) => draft.repeats.isSome = true → ¬ chains.MovedOn task.id
  | _, .write (.bringBack _ _ task _) => ¬ chains.MovedOn task.id
  | _, _ => True

/-- A copy is made from the rule and the text that are stored, and no request restores what a copy was
made of, gives it a rule or stops the repetition it had. -/
def Section.Current (chains : Lineage TaskId) (outside : Outside) (s : Store) :
    {α : Type} → Section α → Prop
  | _, .write (.spawnRepeat board _ task) => ∃ stored ∈ s.task task.id, stored.repeats.isSome = true ∧
      nextInstance task board outside.now = nextInstance stored board outside.now
  | _, .write (.saveTask _ _ task draft) =>
    task.repeats.isSome = true ∨ draft.repeats.isSome = true → ¬ chains.MovedOn task.id
  | _, .write (.deleteTask _ _ task) => task.repeats.isSome = true → ¬ chains.MovedOn task.id
  | _, .write (.endRepeat _ _ task) | _, .write (.bringBack _ _ task _) => ¬ chains.MovedOn task.id
  | _, _ => True

instance (chains : Lineage TaskId) (s : Store) {α : Type} (body : Section α) :
    Decidable (body.Owned chains s) := by
  cases body with
  | read query => exact .isTrue trivial
  | write update =>
    cases update with
    | spawnRepeat board firstCol task => exact inferInstanceAs (Decidable (s.RepeatsNow task.id))
    | saveTask actor board task draft =>
      exact inferInstanceAs (Decidable (draft.repeats.isSome = true → ¬ chains.MovedOn task.id))
    | bringBack actor board task destination => exact inferInstanceAs (Decidable (¬ chains.MovedOn task.id))
    | _ => exact .isTrue trivial

instance (chains : Lineage TaskId) (outside : Outside) (s : Store) {α : Type} (body : Section α) :
    Decidable (body.Current chains outside s) := by
  cases body with
  | read query => exact .isTrue trivial
  | write update =>
    cases update with
    | spawnRepeat board firstCol task =>
      exact inferInstanceAs (Decidable (∃ stored ∈ s.task task.id, stored.repeats.isSome = true ∧
        nextInstance task board outside.now = nextInstance stored board outside.now))
    | saveTask actor board task draft =>
      exact inferInstanceAs (Decidable
        (task.repeats.isSome = true ∨ draft.repeats.isSome = true → ¬ chains.MovedOn task.id))
    | deleteTask actor board task =>
      exact inferInstanceAs (Decidable (task.repeats.isSome = true → ¬ chains.MovedOn task.id))
    | endRepeat actor board task => exact inferInstanceAs (Decidable (¬ chains.MovedOn task.id))
    | bringBack actor board task destination => exact inferInstanceAs (Decidable (¬ chains.MovedOn task.id))
    | _ => exact .isTrue trivial

/-- A task that is found repeating has an active repetition. -/
theorem Store.repeatsNow_of_task {s : Store} {id : TaskId} {task : Task} (h : s.task id = some task)
    (hrepeats : task.repeats.isSome = true) : s.RepeatsNow id := by
  obtain ⟨row, hrow, rfl⟩ := Option.map_eq_some_iff.mp h
  rw [Store.hydrate, Option.isSome_map, List.find?_isSome] at hrepeats
  obtain ⟨found, hmem, hfound⟩ := hrepeats
  rw [Bool.and_eq_true, beq_iff_eq] at hfound
  exact ⟨found, hmem, hfound.1.trans (Store.id_of_taskRow hrow), hfound.2⟩

theorem Section.Current.owned {chains : Lineage TaskId} {outside : Outside} {s : Store} {α : Type}
    {body : Section α} (h : body.Current chains outside s) : body.Owned chains s := by
  cases body with
  | read query => trivial
  | write update =>
    cases update with
    | spawnRepeat board firstCol task =>
      obtain ⟨stored, hstored, hrepeats, -⟩ := h
      exact Store.repeatsNow_of_task hstored hrepeats
    | saveTask actor board task draft => exact fun hrule ↦ h (.inr hrule)
    | bringBack actor board task destination => exact h
    | _ => trivial

/-! ### What a section keeps -/

/-- The ids of all tasks have been handed out, in a chain nothing was made from the same twice, and no
repetition is active on what a copy was made of. -/
structure Sound (chains : Lineage TaskId) (s : Store) : Prop where
  counted : s.Counted
  grows : chains.Grows
  named : ∀ task, chains.Names task → task < s.nextTask
  tips : ∀ task, s.RepeatsNow task → ¬ chains.MovedOn task

section Steps

variable {chains : Lineage TaskId} {s s' : Store}

theorem Sound.oneLive (hs : Sound chains s) : OneLive chains s :=
  fun a b ha hb hkin ↦ hs.grows.tip_unique hkin (hs.tips a ha) (hs.tips b hb)

theorem Sound.firesOnce (hs : Sound chains s) : FiresOnce chains :=
  fun _ _ _ ha hb ↦ hs.grows.child_unique ha hb

/-- Where no copy is made. -/
theorem Sound.calm {others : TaskId → Prop} (hs : Sound chains s) (hcalm : Calm s.nextTask others s s')
    (hothers : ∀ task, others task → ¬ chains.MovedOn task) : Sound chains s' := by
  have hfrom := hcalm le_rfl
  refine ⟨hfrom.counted hs.counted, hs.grows, fun task htask ↦ (hs.named task htask).trans_le hfrom.grow,
    fun task htask hmoved ↦ ?_⟩
  rcases hfrom.repeats task htask with hbefore | hnew | hother
  · exact hs.tips task hbefore hmoved
  · exact absurd (hs.named task hmoved.names) (Nat.not_lt.mpr hnew)
  · exact hothers task hother hmoved

/-- What the making of a copy leaves of the repetitions. -/
theorem spawnRepeat_spec {outside : Outside} {board : Board} {firstCol : ColumnId} {task created : Task}
    (h : spawnRepeat outside board firstCol task s = .ok (created, s')) :
    created.id = s.nextTask ∧ CalmFrom s.nextTask (fun _ ↦ False) s s' ∧
      s.nextTask < s'.nextTask ∧ ∀ other, s'.RepeatsNow other → other ≠ task.id ∧
        (s.RepeatsNow other ∨ other = s.nextTask) := by
  have hcalm : CalmFrom s.nextTask (fun _ ↦ False) s s' := calm_spawnRepeat _ _ _ _ _ _ _ h le_rfl
  simp only [spawnRepeat, advanceRepeat, Tx.bind_eq_ok, recordEvent_eq_ok, Tx.write_eq_ok, Tx.pure_eq_ok,
    Prod.mk.injEq] at h
  obtain ⟨_, s₁, hcreate, _, _, ⟨-, rfl⟩, _, _, ⟨-, rfl⟩, rfl, rfl⟩ := h
  obtain ⟨hid, hnext, -, hrepeats⟩ := createTask_repeats hcreate
  refine ⟨hid, hcalm, ?_, fun other hother ↦ ?_⟩
  · change s.nextTask < s₁.nextTask
    rw [hnext]
    exact Nat.lt_succ_self _
  · obtain ⟨row, hrow, rfl, hactive⟩ := hother
    obtain ⟨old, hold, rfl⟩ := List.mem_map.mp hrow
    split_ifs at hactive ⊢ with hsame
    refine ⟨hsame, ?_⟩
    rcases hrepeats old hold with hbefore | hnew
    · exact .inl ⟨old, hbefore, rfl, hactive⟩
    · exact .inr hnew

/-- Where a copy is made of a task whose repetition is active. -/
theorem Sound.spawn {outside : Outside} {board : Board} {firstCol : ColumnId} {task created : Task}
    (hs : Sound chains s) (howns : s.RepeatsNow task.id)
    (h : spawnRepeat outside board firstCol task s = .ok (created, s')) :
    Sound ((task.id, created.id) :: chains) s' := by
  obtain ⟨hid, hfrom, hlt, hrepeats⟩ := spawnRepeat_spec h
  have hold := hs.counted task.id howns.knows
  have hfresh : ¬ chains.Names s.nextTask := fun hnames ↦ lt_irrefl _ (hs.named _ hnames)
  refine ⟨hfrom.counted hs.counted, ⟨hs.tips _ howns, hid ▸ hfresh, ?_, hs.grows⟩, fun other hother ↦ ?_,
    fun other hother hmoved ↦ ?_⟩
  · rw [hid]
    exact hold.ne'
  · rcases Lineage.names_cons.mp hother with (rfl | rfl) | hnames
    · exact hold.trans hlt
    · exact hid ▸ hlt
    · exact (hs.named other hnames).trans hlt
  · obtain ⟨hne, hwas⟩ := hrepeats other hother
    rcases Lineage.movedOn_cons.mp hmoved with rfl | hmoved
    · exact hne rfl
    · rcases hwas with hwas | rfl
      · exact hs.tips other hwas hmoved
      · exact hfresh hmoved.names

/-- An update that succeeds. -/
theorem Sound.update {α : Type} {outside : Outside} {update : Update α} {a : α}
    (hs : Sound chains s) (howned : (Section.write update).Owned chains s)
    (h : update.work outside s = .ok (a, s')) :
    Sound (((Section.write update).copies (.ok a)).toList ++ chains) s' := by
  have hcalm := calm_update s.nextTask outside update s a s' h
  cases update with
  | spawnRepeat board firstCol task => exact hs.spawn howned h
  | saveTask actor board task draft => exact hs.calm hcalm fun other hother ↦ hother.2 ▸ howned hother.1
  | bringBack actor board task destination => exact hs.calm hcalm fun other hother ↦ hother ▸ howned
  | _ => exact hs.calm hcalm fun other hother ↦ hother.elim

theorem copies_error {α : Type} (body : Section α) (error : AppError) : body.copies (.error error) = none := by
  cases body with
  | read query => rfl
  | write update => cases update <;> rfl

/-- What a section does: it succeeds as its work does, or leaves everything as it was. -/
theorem run_write {α : Type} (update : Update α) (outside : Outside) (s : Store) :
    (∃ a s', update.work outside s = .ok (a, s') ∧
      semantics.run (.write update) outside s = (.ok a, s')) ∨
    ∃ error, semantics.run (.write update) outside s = (.error error, s) := by
  change (∃ a s', _ ∧ commit (update.work outside) s = _) ∨ ∃ error, commit (update.work outside) s = _
  unfold commit
  cases update.work outside s with
  | ok pair => exact .inl ⟨pair.1, pair.2, rfl, rfl⟩
  | error error => exact .inr ⟨error, rfl⟩

/-- Every section keeps the chains sound, when it makes a copy only of what repeats and revives only what
no copy was made of. -/
theorem sound_step {h : Happened} (howned : h.body.Owned chains h.before) (hs : Sound chains h.before) :
    Sound (handOn chains h) (h.after semantics) := by
  obtain ⟨body, outside, s⟩ := h
  unfold handOn Happened.copies Pool.Happening.answer Pool.Happening.after
  cases body with
  | read query =>
    rw [snd_run_read]
    exact hs
  | write update =>
    dsimp only at howned hs ⊢
    rcases run_write update outside s with ⟨a, s', hwork, hrun⟩ | ⟨error, hrun⟩
    · rw [hrun]
      exact hs.update howned hwork
    · rw [hrun, copies_error]
      exact hs

end Steps

/-! ### At most one live repetition -/

section Runs

variable {ρ : Type} {pool : Server ρ} {schedule : List (ℕ × Outside)}

theorem sound_start {s : Store} (h : s.Counted) : Sound [] s where
  counted := h
  grows := trivial
  named _ hnames := by
    obtain ⟨pair, hpair, -⟩ := hnames
    exact (List.not_mem_nil hpair).elim
  tips _ _ hmoved := by
    obtain ⟨pair, hpair, -⟩ := hmoved
    exact (List.not_mem_nil hpair).elim

/-- In a run whose sections make copies only of tasks whose repetition is active, and neither restore nor give
a rule to what a copy was made of, each chain has at most one active repetition and nothing is copied
twice. -/
theorem oneLive_of_owned (hcounted : pool.state.Counted)
    (howned : Pool.Along handOn (fun chains h ↦ h.body.Owned chains h.before) []
      (pool.log semantics schedule)) :
    OneLive (lineage (pool.log semantics schedule)) (pool.play semantics schedule).state ∧
      FiresOnce (lineage (pool.log semantics schedule)) := by
  have hsound : Sound (lineage (pool.log semantics schedule)) (pool.play semantics schedule).state :=
    (Pool.trail_log pool schedule).keeps howned (fun chains h ↦ sound_step) (sound_start hcounted)
  exact ⟨hsound.oneLive, hsound.firesOnce⟩

/-! ### Stopping -/

variable {chains : Lineage TaskId} {s s' : Store} {task : TaskId} {h : Happened}

/-- The repetition of a chain has stopped. -/
structure Stopped (task : TaskId) (chains : Lineage TaskId) (s : Store) : Prop where
  sound : Sound chains s
  known : task < s.nextTask
  still : ∀ other, s.RepeatsNow other → ¬ chains.Kin other task

/-- A chain has stopped with the task that carried it on. -/
theorem Sound.stopped (hs : Sound chains s) (hknown : task < s.nextTask) (htip : ¬ chains.MovedOn task)
    (hnow : ¬ s.RepeatsNow task) : Stopped task chains s := by
  refine ⟨hs, hknown, fun other hother hkin ↦ hnow ?_⟩
  rw [← hs.grows.tip_unique hkin (hs.tips other hother) htip]
  exact hother

/-- What stops a repetition by name, with a save or with a deletion leaves none of the task. -/
theorem not_repeatsNow_of_stops {α : Type} {outside : Outside} {update : Update α} {a : α}
    (hcounted : s.Counted) (hstops : (Section.write update).stops (.ok a) = some task)
    (hwork : update.work outside s = .ok (a, s')) :
    (Section.write update).copies (.ok a) = none ∧ task < s'.nextTask ∧ ¬ s'.RepeatsNow task := by
  have hafter : s'.Counted := (calm_update s.nextTask outside update s a s' hwork le_rfl).counted hcounted
  cases update with
  | endRepeat actor board stopped =>
    obtain rfl := Option.some.inj hstops
    obtain ⟨hknows, hnow⟩ := endRepeat_repeats hwork
    exact ⟨rfl, hafter _ hknows, hnow⟩
  | saveTask actor board saved draft =>
    unfold Section.stops at hstops
    dsimp only at hstops
    split_ifs at hstops with hremoved
    obtain rfl := Option.some.inj hstops
    obtain ⟨-, hknows, hrepeats⟩ := saveTask_repeats hwork
    refine ⟨rfl, hafter _ hknows, ?_⟩
    rintro ⟨row, hrow, hsame, -⟩
    rcases hrepeats row hrow with hother | hrule
    · exact hother.2 hsame
    · simp_all
  | deleteTask actor board deleted =>
    unfold Section.stops at hstops
    dsimp only at hstops
    split_ifs at hstops with hremoved
    obtain rfl := Option.some.inj hstops
    obtain ⟨gone, s₁, hsoft, hrest⟩ := Tx.bind_eq_ok.mp hwork
    obtain ⟨hknows, hnow⟩ := softDeleteTask_repeats hsoft
    have hone : CalmFrom s.nextTask (fun _ ↦ False) s s₁ := calm_softDeleteTask _ _ _ _ _ hsoft le_rfl
    have hknown := hone.counted hcounted _ hknows
    have htwo : CalmFrom s₁.nextTask (fun _ ↦ False) s₁ s' := by
      refine Tx.Within.bind (R := Calm s₁.nextTask fun _ ↦ False) (calm_recordEvent _ _ _ _ _) (fun _ ↦ ?_)
        _ _ _ hrest le_rfl
      exact .bind ((calm_engine outside board).plan.afterDelete _) fun _ ↦ .pure _
    refine ⟨rfl, hknown.trans_le htwo.grow, fun hagain ↦ ?_⟩
    rcases htwo.repeats _ hagain with hbefore | hnew | hnever
    · exact hnow hbefore
    · exact absurd hknown (Nat.not_lt.mpr hnew)
    · exact hnever
  | _ => cases hstops

/-- Ids are handed out and never taken back. -/
theorem grow_run (h : Happened) : h.before.nextTask ≤ (h.after semantics).nextTask := by
  obtain ⟨body, outside, s⟩ := h
  unfold Pool.Happening.after
  cases body with
  | read query => rw [snd_run_read]
  | write update =>
    rcases run_write update outside s with ⟨a, s', hwork, hrun⟩ | ⟨error, hrun⟩
    · rw [hrun]
      exact (calm_update s.nextTask outside update s a s' hwork le_rfl).grow
    · rw [hrun]

/-- A stop of the task that carries its chain on stops the chain. -/
theorem stopped_of_stops (hcurrent : h.body.Current chains h.input h.before) (hs : Sound chains h.before)
    (hstops : Happened.Stops h task) : Stopped task (handOn chains h) (h.after semantics) := by
  have hafter : Sound (handOn chains h) (h.after semantics) := sound_step hcurrent.owned hs
  rcases hstops with hstops | ⟨hcopies, hbefore, hnow⟩
  · obtain ⟨body, outside, s⟩ := h
    unfold Pool.Happening.answer at hstops
    unfold handOn Happened.copies Pool.Happening.answer Pool.Happening.after at hafter ⊢
    cases body with
    | read query => cases hstops
    | write update =>
      dsimp only at hcurrent hs hstops hafter ⊢
      rcases run_write update outside s with ⟨a, s', hwork, hrun⟩ | ⟨error, hrun⟩
      · rw [hrun] at hstops hafter ⊢
        obtain ⟨hcopies, hknown, hnow⟩ := not_repeatsNow_of_stops hs.counted hstops hwork
        refine hafter.stopped hknown ?_ hnow
        rw [hcopies]
        change ¬ chains.MovedOn task
        cases update with
        | endRepeat actor board stopped =>
          obtain rfl := Option.some.inj hstops
          exact hcurrent
        | saveTask actor board saved draft =>
          unfold Section.stops at hstops
          dsimp only at hstops
          split_ifs at hstops with hremoved
          obtain rfl := Option.some.inj hstops
          exact hcurrent (.inl (Bool.and_eq_true_iff.mp hremoved).1)
        | deleteTask actor board deleted =>
          unfold Section.stops at hstops
          dsimp only at hstops
          split_ifs at hstops with hremoved
          obtain rfl := Option.some.inj hstops
          exact hcurrent hremoved
        | _ => cases hstops
      · rw [hrun] at hstops
        cases update <;> cases hstops
  · have hchains : handOn chains h = chains := by
      unfold handOn
      rw [hcopies]
      rfl
    have hknown : task < h.before.nextTask := hs.counted _ hbefore.knows
    rw [hchains] at hafter ⊢
    exact hafter.stopped (hknown.trans_le (grow_run h)) (hs.tips _ hbefore) hnow

/-- Where no copy is made and nothing of the chain is revived. -/
theorem Stopped.calm {others : TaskId → Prop} (hs : Stopped task chains s) (hsound : Sound chains s')
    (hcalm : Calm s.nextTask others s s') (hothers : ∀ other, others other → ¬ chains.Kin other task) :
    Stopped task chains s' := by
  have hfrom := hcalm le_rfl
  refine ⟨hsound, hs.known.trans_le hfrom.grow, fun other hother ↦ ?_⟩
  rcases hfrom.repeats other hother with hbefore | hnew | hrevived
  · exact hs.still other hbefore
  · refine Lineage.not_kin_of_not_names (fun hnames ↦ ?_) (hs.known.trans_le hnew).ne'
    exact absurd (hs.sound.named other hnames) (Nat.not_lt.mpr hnew)
  · exact hothers other hrevived

/-- Where a copy is made, it is one of another chain. -/
theorem Stopped.spawn {outside : Outside} {board : Board} {firstCol : ColumnId} {copied created : Task}
    (hs : Stopped task chains s) (howns : s.RepeatsNow copied.id)
    (h : spawnRepeat outside board firstCol copied s = .ok (created, s')) :
    Stopped task ((copied.id, created.id) :: chains) s' := by
  have hsound := hs.sound.spawn howns h
  obtain ⟨hid, -, hlt, hrepeats⟩ := spawnRepeat_spec h
  have htask : task ≠ created.id := hid ▸ hs.known.ne
  refine ⟨hsound, hs.known.trans hlt, fun other hother ↦ ?_⟩
  rcases (hrepeats other hother).2 with hbefore | hnew
  · have hother : other ≠ created.id := hid ▸ (hs.sound.counted other hbefore.knows).ne
    rw [Lineage.kin_cons_of_ne hother htask]
    exact hs.still other hbefore
  · rw [hnew, ← hid, Lineage.kin_cons_child htask]
    exact hs.still _ howns

/-- A chain that has stopped is still stopped after a section that revives nothing of it, and no copy is
made of its tasks. -/
theorem stopped_step (hcurrent : h.body.Current chains h.input h.before)
    (hrevives : ∀ other ∈ Happened.revives h, ¬ chains.Kin other task)
    (hs : Stopped task chains h.before) :
    Stopped task (handOn chains h) (h.after semantics) ∧
      ∀ pair ∈ Happened.copies h, ¬ chains.Kin pair.1 task := by
  have hsound : Sound (handOn chains h) (h.after semantics) := sound_step hcurrent.owned hs.sound
  obtain ⟨body, outside, s⟩ := h
  unfold handOn Happened.copies Pool.Happening.answer Pool.Happening.after at hsound ⊢
  unfold Happened.revives Pool.Happening.answer at hrevives
  cases body with
  | read query =>
    rw [snd_run_read] at hsound ⊢
    exact ⟨hs, fun _ hcopies ↦ nomatch hcopies⟩
  | write update =>
    dsimp only at hcurrent hrevives hs hsound ⊢
    rcases run_write update outside s with ⟨a, s', hwork, hrun⟩ | ⟨error, hrun⟩
    · rw [hrun] at hrevives hsound ⊢
      have hcalm := calm_update s.nextTask outside update s a s' hwork
      cases update with
      | spawnRepeat board firstCol copied =>
        have howns : s.RepeatsNow copied.id := hcurrent.owned
        refine ⟨hs.spawn howns hwork, fun pair hcopies ↦ ?_⟩
        obtain rfl := Option.some.inj hcopies
        exact hs.still _ howns
      | saveTask actor board saved draft =>
        refine ⟨hs.calm hsound hcalm fun other hother ↦ hrevives other ?_, fun _ hcopies ↦ nomatch hcopies⟩
        obtain ⟨hrule, rfl⟩ := hother
        exact if_pos hrule
      | bringBack actor board restored destination =>
        refine ⟨hs.calm hsound hcalm fun other hother ↦ hrevives other ?_, fun _ hcopies ↦ nomatch hcopies⟩
        exact congrArg some hother
      | _ =>
        exact ⟨hs.calm hsound hcalm fun other hother ↦ hother.elim, fun _ hcopies ↦ nomatch hcopies⟩
    · rw [hrun, copies_error] at hsound ⊢
      exact ⟨hs, fun _ hcopies ↦ nomatch hcopies⟩

/-! ### What copies are made from -/

/-- A copy that is made from what is stored has its text and its rule. -/
theorem fromStored_of_current (hcurrent : h.body.Current chains h.input h.before)
    (hcounted : h.before.Counted) : Happened.FromStored h := by
  have hfresh : h.before.taskRow h.before.nextTask = none := by
    refine Option.eq_none_iff_forall_ne_some.mpr fun row hrow ↦ ?_
    exact lt_irrefl _ (hcounted _ (.inl ⟨row, List.mem_of_find?_eq_some hrow, Store.id_of_taskRow hrow⟩))
  obtain ⟨body, outside, s⟩ := h
  unfold Happened.FromStored Pool.Happening.answer
  cases body with
  | read query => trivial
  | write update =>
    dsimp only at hcurrent hfresh ⊢
    rcases run_write update outside s with ⟨a, s', hwork, hrun⟩ | ⟨error, hrun⟩
    · rw [hrun]
      cases update with
      | spawnRepeat board firstCol copied =>
        obtain ⟨stored, hstored, -, hsame⟩ := hcurrent
        simp only [Update.work, spawnRepeat, Tx.bind_eq_ok, Tx.pure_eq_ok, Prod.mk.injEq] at hwork
        obtain ⟨created, s₁, hcreate, -, -, -, -, -, -, rfl, -⟩ := hwork
        obtain ⟨-, hrule, shortId, position, hrow⟩ := createTask_row hfresh hcreate
        rw [hsame] at hrule hrow
        exact ⟨stored, shortId, position, hstored, hrule, hrow⟩
      | _ => trivial
    · rw [hrun]
      cases update <;> trivial

/-- In a run whose sections make copies only from what is stored, and in which requests neither restore
what a copy was made of nor give it a rule or stop it, a repetition that is stopped stays so and every copy
has the text and the rule that are stored at that time. -/
theorem staysStopped_of_current (hcounted : pool.state.Counted)
    (hcurrent : Pool.Along handOn (fun chains h ↦ h.body.Current chains h.input h.before) []
      (pool.log semantics schedule)) :
    StaysStopped (pool.log semantics schedule) (pool.play semantics schedule).state ∧
      ∀ h ∈ pool.log semantics schedule, Happened.FromStored h := by
  have htrail : Pool.Trail semantics pool.state (pool.log semantics schedule)
      (pool.play semantics schedule).state := Pool.trail_log pool schedule
  have hkeep (chains : Lineage TaskId) (h : Happened)
      (hcurrent : h.body.Current chains h.input h.before) (hs : Sound chains h.before) :
      Sound (handOn chains h) (h.after semantics) := sound_step hcurrent.owned hs
  constructor
  · intro past h since task hlog hstops hrevives
    rw [hlog] at htrail hcurrent ⊢
    obtain ⟨between, hpast, hlater⟩ := htrail.split
    obtain ⟨hone, htwo, hthree⟩ := Pool.along_append.mp hcurrent
    cases hlater with
    | cons hsince =>
      have hsound : Sound (lineage past) h.before := hpast.keeps hone hkeep (sound_start hcounted)
      have hstopped := stopped_of_stops htwo hsound hstops
      have hmid : lineage (past ++ [h]) = handOn (lineage past) h := by
        rw [lineage, List.foldl_append]
        rfl
      have hend : lineage (past ++ h :: since) = since.foldl handOn (handOn (lineage past) h) := by
        rw [lineage, List.foldl_append]
        rfl
      rw [hmid] at hrevives ⊢
      rw [hend]
      have hboth := hthree.and hrevives
      refine ⟨(hsince.keeps hboth (fun chains later hmeets hs ↦ ?_) hstopped).still,
        hsince.along hboth (fun chains later hmeets hs ↦ ?_) (fun chains later hmeets hs ↦ ?_) hstopped⟩
      · exact (stopped_step hmeets.1 hmeets.2 hs).1
      · exact (stopped_step hmeets.1 hmeets.2 hs).1
      · exact (stopped_step hmeets.1 hmeets.2 hs).2
  · refine (htrail.along hcurrent hkeep (fun chains h hmeets hs ↦ ?_) (sound_start hcounted)).forall_mem
    exact fromStored_of_current hmeets hs.counted

end Runs

/-! ### One task, every day -/

/-- A board with its owner and nothing on it. -/
def emptyBoard : Store :=
  { Store.empty with
    users := [⟨1, false, Tz.utc⟩]
    boards := [boardWithMembers 1 [1]]
    nextBoard := 2
    nextColumn := 5 }

/-- A task of every day is made in the finished column, and the next day its copy. -/
def copied (rest : List Request) : Server Response :=
  serve emptyBoard (.request ⟨1, false⟩ (.createTask 1 (some 4)
    { TaskDraft.default with title := text "Feed", repeats := some daily }) :: .tick ::
      rest.map (.request ⟨1, false⟩))

theorem counted_emptyBoard : emptyBoard.Counted := by
  rintro task (⟨row, hrow, -⟩ | ⟨row, hrow, -⟩) <;> exact (List.not_mem_nil hrow).elim

/-- Who runs how many sections in a row, and when. -/
def turns (parts : List (ℕ × ℕ × Instant)) : List (ℕ × Outside) :=
  parts.flatMap fun (i, n, now) ↦ List.replicate n (i, .still now)

/-- Four jobs one after the other. -/
def inTurn : List (ℕ × Outside) := turns [(0, 2, 0), (1, 6, 90000), (2, 3, 90001), (3, 3, 90002)]

/-- The copy is deleted and restored. -/
theorem oneLive_copied :
    OneLive (lineage ((copied [.deleteTask 2, .restoreTask 2]).log semantics inTurn))
      ((copied [.deleteTask 2, .restoreTask 2]).play semantics inTurn).state ∧
    FiresOnce (lineage ((copied [.deleteTask 2, .restoreTask 2]).log semantics inTurn)) :=
  oneLive_of_owned counted_emptyBoard (by decide +kernel)

/-- The task the copy was made of is deleted and restored: its repetition is switched on again. -/
theorem not_oneLive_copied :
    ¬ OneLive (lineage ((copied [.deleteTask 1, .restoreTask 1]).log semantics inTurn))
      ((copied [.deleteTask 1, .restoreTask 1]).play semantics inTurn).state := by
  intro h
  exact absurd (h 1 2 (by decide +kernel) (by decide +kernel) (by decide +kernel)) (by decide)

/-- The copy is stopped. -/
theorem staysStopped_copied :
    StaysStopped ((copied [.stopRepeat 2]).log semantics (inTurn.take 11))
      ((copied [.stopRepeat 2]).play semantics (inTurn.take 11)).state ∧
    ∀ h ∈ (copied [.stopRepeat 2]).log semantics (inTurn.take 11), Happened.FromStored h :=
  staysStopped_of_current counted_emptyBoard (by decide +kernel)

/-- The repetition is stopped after the pass of the scheduler has listed it and before it makes the
copy. -/
def stopBetween : List (ℕ × Outside) := turns [(0, 2, 0), (1, 3, 90000), (2, 3, 90000), (1, 3, 90000)]

theorem lt_length_stopBetween :
    7 < ((copied [.stopRepeat 1]).log semantics stopBetween).length := by decide +kernel

/-- The copy repeats on. -/
theorem not_staysStopped_copied :
    ¬ StaysStopped ((copied [.stopRepeat 1]).log semantics stopBetween)
      ((copied [.stopRepeat 1]).play semantics stopBetween).state := by
  intro h
  have hsplit := List.take_append_drop 7 ((copied [.stopRepeat 1]).log semantics stopBetween)
  rw [List.drop_eq_getElem_cons lt_length_stopBetween] at hsplit
  have hstopped := h _ _ _ 1 hsplit.symm (.inl (by decide +kernel)) (by decide +kernel)
  exact hstopped.1 2 (by decide +kernel) (by decide +kernel)

end Taskologic.Daemon
