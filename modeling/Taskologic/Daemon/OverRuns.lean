import Taskologic.Daemon.Numbering

/-!
# A run that is over stays over

What is said of a run that is finished or cancelled is `Store.Over`, and what a section leaves of it `LeavesAlone`:
it reacts to nothing and is told of nothing, no task becomes its own, none of its questions is asked or answered, its
tasks keep their dates unless somebody saves them, and its root stays in its column unless a request puts it
elsewhere, its column is removed, or it is the root of another run that closes. Every change a section is made of
leaves it that (`leavesAlone_change`), hence every section does (`leavesAlone_section`), and so it goes on for good
(`finished_run_staysOver`).
-/

set_option autoImplicit false
set_option relaxedAutoImplicit false

namespace Taskologic.Daemon

open Taskologic.Core Taskologic.Library

/-! ### What is left of a run that is over -/

/-- The run has been made, and reacts to nothing any more. -/
def Store.Over (s : Store) (run : RunId) : Prop := run < s.nextRun ∧ ¬ s.Active run

/-- The run has made the task, or is about it. -/
def Store.Holds (s : Store) (run : RunId) (task : TaskId) : Prop :=
  ∃ link ∈ s.links, link.run = run ∧ link.taskId = task

/-- Another run that reacts has the task for its root. -/
def Store.RootOfOther (s : Store) (run : RunId) (task : TaskId) : Prop :=
  ∃ other ∈ s.runs, other.id ≠ run ∧ other.isActive = true ∧ other.rootTask = task

/-- What happens between two stores leaves a run alone. Of its tasks only those somebody saves (`dated`) change their
dates, and only tasks that are put into a column (`placed`) change theirs. -/
structure LeavesAlone (run : RunId) (dated placed : TaskId → Prop) (s s' : Store) : Prop where
  known : run < s'.nextRun
  runs : ∀ r ∈ s'.runs, r.id = run → r.isActive = false ∧
    ∃ before ∈ s.runs, before.id = run ∧ before.rootTask = r.rootTask
  links : ∀ link ∈ s'.links, link.run = run → ∃ before ∈ s.links, before.run = run ∧
    before.taskId = link.taskId ∧ before.asked = link.asked ∧ before.answer = link.answer
  quiet : s'.reactions.filter (fun reaction ↦ reaction.run == run) =
    s.reactions.filter (fun reaction ↦ reaction.run == run)
  grows : s.nextTask ≤ s'.nextTask
  tasks : ∀ row' ∈ s'.tasks, s.nextTask ≤ row'.id ∨ ∃ row ∈ s.tasks, row.id = row'.id ∧
    (s'.Holds run row.id → row'.startAt = row.startAt ∧ row'.dueAt = row.dueAt ∨ dated row.id) ∧
    (row'.columnId = row.columnId ∨ placed row.id)

namespace LeavesAlone

variable {run : RunId} {dated placed : TaskId → Prop} {s s' s'' : Store}

/-- The run stays over. -/
theorem staysOver (h : LeavesAlone run dated placed s s') : s'.Over run := by
  refine ⟨h.known, ?_⟩
  rintro ⟨r, hr, hid, hactive⟩
  exact absurd hactive (by simp [(h.runs r hr hid).1])

theorem holds (h : LeavesAlone run dated placed s s') {task : TaskId} (htask : s'.Holds run task) :
    s.Holds run task := by
  obtain ⟨link, hlink, hrun, hid⟩ := htask
  obtain ⟨before, hbefore, hsame, htask, -⟩ := h.links link hlink hrun
  exact ⟨before, hbefore, hsame, htask.trans hid⟩

theorem refl (hover : s.Over run) : LeavesAlone run dated placed s s where
  known := hover.1
  runs r hr hid := ⟨by simpa using fun hactive ↦ hover.2 ⟨r, hr, hid, hactive⟩, r, hr, hid, rfl⟩
  links link hlink hrun := ⟨link, hlink, hrun, rfl, rfl, rfl⟩
  quiet := rfl
  grows := le_rfl
  tasks row hrow := .inr ⟨row, hrow, rfl, fun _ ↦ .inl ⟨rfl, rfl⟩, .inl rfl⟩

theorem trans (hone : LeavesAlone run dated placed s s') (htwo : LeavesAlone run dated placed s' s'') :
    LeavesAlone run dated placed s s'' where
  known := htwo.known
  runs r hr hid := by
    obtain ⟨hover, mid, hmid, hmidId, hroot⟩ := htwo.runs r hr hid
    obtain ⟨-, before, hbefore, hbeforeId, hsame⟩ := hone.runs mid hmid hmidId
    exact ⟨hover, before, hbefore, hbeforeId, hsame.trans hroot⟩
  links link hlink hrun := by
    obtain ⟨mid, hmid, hmidRun, htask, hasked, hanswer⟩ := htwo.links link hlink hrun
    obtain ⟨before, hbefore, hbeforeRun, htask', hasked', hanswer'⟩ := hone.links mid hmid hmidRun
    exact ⟨before, hbefore, hbeforeRun, htask'.trans htask, hasked'.trans hasked, hanswer'.trans hanswer⟩
  quiet := htwo.quiet.trans hone.quiet
  grows := hone.grows.trans htwo.grows
  tasks row'' hrow'' := by
    rcases htwo.tasks row'' hrow'' with hnew | ⟨row', hrow', hid', hdates', hcolumn'⟩
    · exact .inl (hone.grows.trans hnew)
    · rcases hone.tasks row' hrow' with hnew | ⟨row, hrow, hid, hdates, hcolumn⟩
      · exact .inl (hid' ▸ hnew)
      · rw [← hid] at hid' hdates' hcolumn'
        refine .inr ⟨row, hrow, hid', fun hholds ↦ ?_, ?_⟩
        · rcases hdates' hholds with ⟨hstart, hdue⟩ | hsaved
          · refine (hdates (htwo.holds hholds)).imp_left fun hsame ↦ ?_
            exact ⟨hstart.trans hsame.1, hdue.trans hsame.2⟩
          · exact .inr hsaved
        · rcases hcolumn' with hsame | hput
          · exact hcolumn.imp_left hsame.trans
          · exact .inr hput

/-- Only what is said of tasks that were there counts. -/
theorem mono {dated' placed' : TaskId → Prop} (h : LeavesAlone run dated placed s s')
    (hdated : ∀ row ∈ s.tasks, dated row.id → dated' row.id)
    (hplaced : ∀ row ∈ s.tasks, placed row.id → placed' row.id) : LeavesAlone run dated' placed' s s' where
  known := h.known
  runs := h.runs
  links := h.links
  quiet := h.quiet
  grows := h.grows
  tasks row' hrow' := (h.tasks row' hrow').imp_right fun ⟨row, hrow, hid, hdates, hcolumn⟩ ↦
    ⟨row, hrow, hid, fun hholds ↦ (hdates hholds).imp_right (hdated row hrow), hcolumn.imp_right (hplaced row hrow)⟩

end LeavesAlone

/-- Somebody saves the task. -/
def Update.SavesTask (task : TaskId) {α : Type} : Update α → Prop
  | .saveTask _ _ saved _ => saved.id = task
  | _ => False

/-- A request puts the task into a column, or the column it is in goes. -/
def Update.Puts (s : Store) (task : TaskId) {α : Type} : Update α → Prop
  | .moveTaskBy _ _ moved _ _ _ _ => moved.id = task
  | .bringBack _ _ restored _ => restored.id = task
  | .dropColumn _ _ plan => ∃ row ∈ s.tasks, row.id = task ∧ row.columnId = plan.removed
  | _ => False

/-- What a section leaves of a run that is over. -/
def Section.LeavesAlone (run : RunId) (s s' : Store) {α : Type} : Section α → Prop
  | .read _ => s' = s
  | .write update => Daemon.LeavesAlone run (fun task ↦ update.SavesTask task)
      (fun task ↦ update.Puts s task ∨ s.RootOfOther run task) s s'

/-! ### Change by change -/

section Changes

variable {run : RunId} {dated placed : TaskId → Prop} {s t : Store} {effect : Effect}

theorem Store.Over.ne {id : RunId} (h : s.Over run) (hactive : s.Active id) : id ≠ run := by
  rintro rfl
  exact h.2 hactive

/-- A run with the next number is another one. -/
theorem Store.Over.ne_next {id : RunId} (h : s.Over run) (hid : id = s.nextRun) : id ≠ run := by
  rintro rfl
  exact absurd h.1 (hid ▸ lt_irrefl _)

/-- A task of a run that reacts is none of a run that is over. -/
theorem Store.Over.not_holds {task : TaskId} (h : s.Over run) (hids : s.Numbered) (htask : s.ActiveTask task) :
    ¬ s.Holds run task := by
  rintro ⟨link, hlink, hrun, hid⟩
  obtain ⟨other, hother, hsame, hactive⟩ := htask
  obtain rfl : link = other := List.inj_on_of_nodup_map hids.links hlink hother (hid.trans hsame.symm)
  exact h.ne hactive hrun

/-- What a change must come with for a run that is over to be left alone. -/
structure Effect.Spares (run : RunId) (dated placed : TaskId → Prop) (s : Store) (effect : Effect) : Prop where
  links : ∀ link, effect = .importLink link → link.run ≠ run
  dates : ∀ task, effect = .save task → dated task
  columns : ∀ row ∈ s.tasks, ∀ destination, effect.Takes s row.id row.columnId destination → placed row.id

/-- No change tells a run that is over of anything. -/
theorem reactions_before (hover : s.Over run) (h : Change effect s t) :
    t.reactions.filter (fun reaction ↦ reaction.run == run) =
      s.reactions.filter (fun reaction ↦ reaction.run == run) := by
  have hadd {others : List Reaction} (hothers : ∀ reaction ∈ others, reaction.run ≠ run) :
      (s.reactions ++ others).filter (fun reaction ↦ reaction.run == run) =
        s.reactions.filter (fun reaction ↦ reaction.run == run) := by
    rw [List.filter_append, List.append_right_eq_self, List.filter_eq_nil_iff]
    exact fun reaction hreaction ↦ by simpa using hothers reaction hreaction
  cases h with
  | aside hbeside => rw [hbeside.reactions]
  | importRun r hid reactions hreactions =>
    exact hadd fun reaction hreaction ↦ hreactions reaction hreaction ▸ hover.ne_next hid
  | react id event hactive =>
    exact hadd fun reaction hreaction ↦ List.mem_singleton.mp hreaction ▸ hover.ne hactive
  | _ => rfl

/-- Numbers are not given back. -/
theorem next_le_of_change (h : Change effect s t) : s.nextRun ≤ t.nextRun ∧ s.nextTask ≤ t.nextTask := by
  cases h with
  | aside hbeside => exact ⟨hbeside.nextRun.ge, hbeside.nextTask.ge⟩
  | addTask row hid => exact ⟨le_rfl, hid ▸ Nat.le_succ _⟩
  | addRun run link hid | importRun run hid => exact ⟨hid ▸ Nat.le_succ _, le_rfl⟩
  | _ => exact ⟨le_rfl, le_rfl⟩

/-- Every change leaves a run that is over alone. -/
theorem leavesAlone_change (hids : s.Numbered) (hover : s.Over run) (hspares : effect.Spares run dated placed s)
    (h : Change effect s t) : LeavesAlone run dated placed s t := by
  have hlinks (link : TaskLink) (hlink : link ∈ t.links) (hrun : link.run = run) : ∃ before ∈ s.links,
      before.run = run ∧ before.taskId = link.taskId ∧ before.asked = link.asked ∧ before.answer = link.answer := by
    rcases link_before h hlink with ⟨before, hbefore, htask, hsame, -, hquestion⟩ | ⟨-, hactive⟩ | himport |
      ⟨hnext, -⟩
    · refine ⟨before, hbefore, hsame.trans hrun, htask, hquestion.resolve_right fun hactive ↦ ?_⟩
      exact hover.not_holds hids hactive ⟨before, hbefore, hsame.trans hrun, htask⟩
    · exact absurd hrun (hover.ne hactive)
    · exact absurd hrun (hspares.links link himport)
    · exact absurd hrun (hover.ne_next hnext)
  refine ⟨hover.1.trans_le (next_le_of_change h).1, fun r hr hid ↦ ?_, hlinks, reactions_before hover h,
    (next_le_of_change h).2, fun row' hrow' ↦ ?_⟩
  · rcases run_before h hr with ⟨before, hbefore, hsame, hroot, -, -, hactive⟩ | ⟨hnext, -⟩
    · refine ⟨?_, before, hbefore, hsame.trans hid, hroot⟩
      simpa using fun hreacts ↦ hover.2 ⟨before, hbefore, hsame.trans hid, hactive hreacts⟩
    · exact absurd hid (hover.ne_next hnext)
  · rcases task_before h hrow' with ⟨row, hrow, hid, -, hdates, hcolumn⟩ | ⟨hnew, -⟩
    · rw [← hid] at hdates hcolumn
      refine .inr ⟨row, hrow, hid, fun ⟨link, hlink, hrun, htask⟩ ↦ ?_, ?_⟩
      · rcases hdates with hsame | hsaved | ⟨-, hactive⟩
        · exact .inl hsame
        · exact .inr (hspares.dates _ hsaved)
        · obtain ⟨before, hbefore, hbeforeRun, hbeforeTask, -⟩ := hlinks link hlink hrun
          exact absurd ⟨before, hbefore, hbeforeRun, hbeforeTask.trans htask⟩ (hover.not_holds hids hactive)
      · exact hcolumn.imp_right (hspares.columns row hrow _)
    · exact .inl hnew.ge

end Changes

/-! ### Section by section -/

section Sections

variable {run : RunId} {s t t' : Store} {α : Type} {update : Update α} {effect : Effect}

/-- Only the start of a program adds a run, with a root of its own. -/
theorem root_of_allows {r : Run} (h : update.Allows s (.addRun r)) : s.nextTask ≤ r.rootTask := by
  cases update with
  | startProgram actor board program column startAt fanOut => exact h.2.2
  | moveTaskBy | giveAnswer | deleteTask =>
    obtain ⟨_, _, hreacts⟩ := h
    first | exact hreacts.elim | exact hreacts.1.elim
  | _ => exact h.elim

/-- A file closes no run. -/
theorem not_close_of_import {r : Run} {id : RunId} {column : ColumnId} (h : update.Allows s (.importRun r)) :
    ¬ update.Allows s (.close id column) := by
  cases update with
  | importEverything file wholeServer clash => exact fun hclose ↦ hclose
  | moveTaskBy | giveAnswer | deleteTask =>
    obtain ⟨_, _, hreacts⟩ := h
    first | exact hreacts.elim | exact hreacts.1.elim
  | startProgram =>
    obtain ⟨_, _, hreacts⟩ := h
    exact hreacts.elim
  | _ => exact h.elim

/-- Links of a file belong to runs with new numbers. -/
theorem run_of_importLink {link : TaskLink} (h : update.Allows s (.importLink link)) : s.nextRun ≤ link.run := by
  cases update with
  | importEverything file wholeServer clash => exact h
  | moveTaskBy | giveAnswer | deleteTask =>
    obtain ⟨_, _, hreacts⟩ := h
    first | exact hreacts.elim | exact hreacts.1.elim
  | startProgram =>
    obtain ⟨_, _, hreacts⟩ := h
    exact hreacts.elim
  | _ => exact h.elim

theorem saves_of_allows {task : TaskId} (h : update.Allows s (.save task)) : update.SavesTask task := by
  cases update with
  | saveTask actor board saved draft => exact h.symm
  | moveTaskBy | giveAnswer | deleteTask =>
    obtain ⟨_, _, hreacts⟩ := h
    first | exact hreacts.elim | exact hreacts.1.elim
  | startProgram =>
    obtain ⟨_, _, hreacts⟩ := h
    exact hreacts.elim
  | _ => exact h.elim

theorem puts_of_place {task : TaskId} {column : ColumnId} (h : update.Allows s (.place task column)) :
    update.Puts s task := by
  cases update with
  | moveTaskBy | bringBack => exact h.1.symm
  | giveAnswer | deleteTask =>
    obtain ⟨_, _, hreacts⟩ := h
    first | exact hreacts.elim | exact hreacts.1.elim
  | startProgram =>
    obtain ⟨_, _, hreacts⟩ := h
    exact hreacts.elim
  | _ => exact h.elim

theorem puts_of_shift {row : TaskRow} {destination : ColumnId} (hrow : row ∈ s.tasks)
    (h : update.Allows s (.shift row.columnId destination)) : update.Puts s row.id := by
  cases update with
  | dropColumn actor board plan => exact ⟨row, hrow, rfl, h.1⟩
  | moveTaskBy | giveAnswer | deleteTask =>
    obtain ⟨_, _, hreacts⟩ := h
    first | exact hreacts.elim | exact hreacts.1.elim
  | startProgram =>
    obtain ⟨_, _, hreacts⟩ := h
    exact hreacts.elim
  | _ => exact h.elim

/-- Between the changes of an update, a run that reacts has done so before, or it has a root of its own, or it has come
with a file. -/
def RunsFrom (update : Update α) (s t : Store) : Prop :=
  ∀ r ∈ t.runs, r.isActive = true →
    (∃ before ∈ s.runs, before.id = r.id ∧ before.rootTask = r.rootTask ∧ before.isActive = true) ∨
      s.nextTask ≤ r.rootTask ∨ ∃ brought, update.Allows s (.importRun brought)

theorem runsFrom_change (hallowed : update.Allows s effect) (h : Change effect t t') (hfrom : RunsFrom update s t) :
    RunsFrom update s t' := by
  intro r hr hactive
  rcases run_before h hr with ⟨before, hbefore, hid, hroot, -, -, hthen⟩ | ⟨-, rfl | rfl⟩
  · rw [← hid, ← hroot]
    exact hfrom before hbefore (hthen hactive)
  · exact .inr (.inl (root_of_allows hallowed))
  · exact .inr (.inr ⟨r, hallowed⟩)

/-- What an update may do spares a run that is over. -/
theorem spares_of_allows (hover : s.Over run) (hallowed : update.Allows s effect)
    (hfrom : RunsFrom update s t)
    (hleft : LeavesAlone run (fun task ↦ update.SavesTask task)
      (fun task ↦ (update.Puts s task ∨ s.RootOfOther run task) ∨ s.nextTask ≤ task) s t) :
    effect.Spares run (fun task ↦ update.SavesTask task)
      (fun task ↦ (update.Puts s task ∨ s.RootOfOther run task) ∨ s.nextTask ≤ task) t where
  links link heffect := by
    subst heffect
    exact (hover.1.trans_le (run_of_importLink hallowed)).ne'
  dates task heffect := by
    subst heffect
    exact saves_of_allows hallowed
  columns row hrow destination htakes := by
    rcases htakes with rfl | rfl | ⟨r, hr, hactive, hroot, rfl⟩
    · exact .inl (.inl (puts_of_place hallowed))
    · rcases hleft.tasks row hrow with hnew | ⟨before, hbefore, hid, -, hsame | hput⟩
      · exact .inr hnew
      · rw [hsame] at hallowed
        exact .inl (.inl (hid ▸ puts_of_shift hbefore hallowed))
      · exact hid ▸ hput
    · rcases hfrom r hr hactive with ⟨before, hbefore, hid, hsame, hthen⟩ | hnew | ⟨brought, hbrought⟩
      · refine .inl (.inr ⟨before, hbefore, ?_, hthen, hsame.trans hroot⟩)
        exact hid ▸ hleft.staysOver.ne ⟨r, hr, rfl, hactive⟩
      · exact .inr (hroot ▸ hnew)
      · exact absurd hallowed (not_close_of_import hbrought)

/-- Every update leaves a run that is over alone. -/
theorem leavesAlone_update {outside : Outside} {a : α} (hids : s.Numbered) (hover : s.Over run)
    (h : update.work outside s = .ok (a, t)) : LeavesAlone run (fun task ↦ update.SavesTask task)
      (fun task ↦ update.Puts s task ∨ s.RootOfOther run task) s t := by
  have hall := (chain_update hids h).keeps (P := fun t ↦ t.Numbered ∧ RunsFrom update s t ∧
    LeavesAlone run (fun task ↦ update.SavesTask task)
      (fun task ↦ (update.Puts s task ∨ s.RootOfOther run task) ∨ s.nextTask ≤ task) s t)
    (fun effect between after hallowed hchange ⟨hnumbered, hfrom, hleft⟩ ↦
      ⟨hnumbered.change hchange, runsFrom_change hallowed hchange hfrom,
        hleft.trans (leavesAlone_change hnumbered hleft.staysOver (spares_of_allows hover hallowed hfrom hleft)
          hchange)⟩)
    ⟨hids, fun r hr hactive ↦ .inl ⟨r, hr, rfl, rfl, hactive⟩, .refl hover⟩
  refine hall.2.2.mono (fun _ _ hsaved ↦ hsaved) fun row hrow hput ↦ hput.resolve_right fun hnew ↦ ?_
  exact absurd (hids.tasks.below row hrow) (Nat.not_lt.mpr hnew)

/-- Every section leaves a run that is over alone. -/
theorem leavesAlone_section (hids : s.Numbered) (hover : s.Over run) (body : Section α) (input : Outside) :
    body.LeavesAlone run s (semantics.run body input s).2 := by
  cases body with
  | read query => exact snd_run_read query input s
  | write update =>
    rcases snd_commit (update.work input) s with hsame | ⟨a, hrun⟩
    · change Daemon.LeavesAlone run _ _ s (commit (update.work input) s).2
      rw [hsame]
      exact .refl hover
    · exact leavesAlone_update hids hover hrun

theorem Section.LeavesAlone.staysOver {body : Section α} (h : body.LeavesAlone run s t) (hover : s.Over run) :
    t.Over run := by
  cases body with
  | read query => exact (show t = s from h) ▸ hover
  | write update => exact Daemon.LeavesAlone.staysOver h

end Sections

/-! ### Along a run of the server -/

/-- What the daemon gets to from a fresh install has its ids in order. -/
theorem numbered_play (jobs : List Job) (schedule : List (ℕ × Outside)) :
    ((serve Store.empty jobs).play semantics schedule).state.Numbered :=
  (Pool.reaches_play (serve Store.empty jobs) schedule).invariant (C := Pool.anySection)
    (fun _ body input _ _ hs ↦ numbered_section body input hs) Store.Numbered.empty

/-- A run that is finished or cancelled is over, and from then on every section leaves it alone: whatever the jobs are
and in whatever order their sections run. -/
theorem finished_run_staysOver (jobs : List Job) (earlier later : List (ℕ × Outside)) (run : Run)
    (hrun : run ∈ ((serve Store.empty jobs).play semantics earlier).state.runs) (hfinal : run.isActive = false) :
    let server := (serve Store.empty jobs).play semantics earlier
    (∀ happening ∈ server.log semantics later, happening.before.Over run.id ∧
      happening.body.LeavesAlone run.id happening.before (happening.after semantics)) ∧
      (server.play semantics later).state.Over run.id := by
  intro server
  have hids : server.state.Numbered := numbered_play jobs earlier
  have hover : server.state.Over run.id := by
    refine ⟨hids.runs.below run hrun, ?_⟩
    rintro ⟨other, hother, hsame, hactive⟩
    obtain rfl : other = run := List.inj_on_of_nodup_map hids.runs.keyed hother hrun hsame
    exact absurd hactive (by simp [hfinal])
  have htrail : Pool.Trail semantics server.state (server.log semantics later)
      (server.play semantics later).state :=
    Pool.trail_log server later
  have hkeep : ∀ happening : Happened, happening.before.Numbered ∧ happening.before.Over run.id →
      ((happening.after semantics).Numbered ∧ (happening.after semantics).Over run.id) ∧
        happening.before.Over run.id ∧
          happening.body.LeavesAlone run.id happening.before (happening.after semantics) := by
    rintro happening ⟨hnumbered, hbefore⟩
    have hleft := leavesAlone_section hnumbered hbefore happening.body happening.input
    exact ⟨⟨numbered_section _ _ hnumbered, hleft.staysOver hbefore⟩, hbefore, hleft⟩
  obtain ⟨hlog, -, hlast⟩ := htrail.forall_mem (I := fun s ↦ s.Numbered ∧ s.Over run.id) hkeep ⟨hids, hover⟩
  exact ⟨hlog, hlast⟩

/-! ### A run that is cancelled -/

/-- Two steps, one after the other. -/
def washing : ProgramDraft where
  name := text "Wash"
  description := []
  steps := [{ Step.default with key := rootKey, title := text "Wash" },
    { Step.default with key := text "1", title := text "Soak", created := [.withRoot] },
    { Step.default with key := text "2", title := text "Rinse", created := [.finished (text "1")] }]
  minSamples := 1

/-- The run begins and is cancelled, and then its first step is finished. -/
def washDay : List Job :=
  [.login 1 Tz.utc false,
    .request ⟨1, false⟩ (.createBoard ⟨text "Yard", [], [text "To do", text "Doing", text "Paused", text "Done"],
      1, 2, 3, 0, 0, .default, false, false, [1]⟩),
    .request ⟨1, false⟩ (.createProgram 1 washing),
    .request ⟨1, false⟩ (.startProgram 1 none none []),
    .request ⟨1, false⟩ (.cancelRun 1 false),
    .request ⟨1, false⟩ (.moveTask 2 4 none false none)]

/-- One job after another, from some job on. -/
def turnsFrom (first count : ℕ) : List (ℕ × Outside) :=
  (List.range count).flatMap fun i ↦ List.replicate 4 (first + i, .still 10)

def washCancelled : Run :=
  (((serve Store.empty washDay).play semantics (turnsFrom 0 5)).state.run 1).get (by decide +kernel)

/-- The step that is finished after the run was cancelled makes no task of the next one. -/
theorem washCancelled_staysOver :
    washCancelled.isActive = false ∧
      (((serve Store.empty washDay).play semantics (turnsFrom 0 5)).play semantics (turnsFrom 5 1)).state.Over
        washCancelled.id :=
  have hrun : washCancelled ∈ ((serve Store.empty washDay).play semantics (turnsFrom 0 5)).state.runs :=
    List.mem_of_find?_eq_some (Option.some_get _).symm
  have hfinal : washCancelled.isActive = false := by decide +kernel
  ⟨hfinal, (finished_run_staysOver washDay (turnsFrom 0 5) (turnsFrom 5 1) washCancelled hrun hfinal).2⟩

end Taskologic.Daemon
