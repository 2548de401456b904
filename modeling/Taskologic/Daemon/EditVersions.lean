import Taskologic.Daemon.Frames

/-!
# Two edits of one version

An edit names the version it was made from. The version is compared in the section that loads the task and
the draft is written in a later one, without another look at it. Of the edits that name one version at
most one is accepted (`AtMostOneEdit`) in every interleaving in which each save finds the version its
request has compared (`atMostOneEdit_of_reaches`); otherwise both may be (`not_atMostOneEdit_twoEdits`).
What holds in every interleaving is that an accepted edit has moved the version on.
-/

set_option autoImplicit false
set_option relaxedAutoImplicit false

namespace Taskologic.Daemon

open Taskologic.Core Taskologic.Library

/-- The task an edit is of and the version it names. -/
def Job.edits : Job → Option (TaskId × ℕ)
  | .request _ (.updateTask id named _) => some (id, named)
  | _ => none

/-- A request was answered with success. -/
def accepted (server : Server Response) (i : ℕ) : Prop :=
  ((server.threads[i]?).bind Thread.answer?).any Except.isOk = true

theorem accepted_iff {server : Server Response} {i : ℕ} :
    accepted server i ↔ ∃ response, server.threads[i]? = some (.done (.ok response)) := by
  unfold accepted
  cases hthread : server.threads[i]? with
  | none => simp
  | some thread =>
    cases thread with
    | lock body next => simp [Thread.answer?]
    | done answer =>
      cases answer <;> simp [Thread.answer?, Except.isOk, Except.toBool]

/-- Of the edits of a task that name one version at most one was accepted. -/
def AtMostOneEdit (jobs : List Job) (server : Server Response) : Prop :=
  ∀ (edit : TaskId × ℕ) (i j : ℕ), (jobs[i]?).bind Job.edits = some edit →
    (jobs[j]?).bind Job.edits = some edit → accepted server i → accepted server j → i = j

/-- A save finds the version that was compared. -/
def Update.saveCurrent (s : Store) {α : Type} : Update α → Bool
  | .saveTask _ _ loaded _ => decide (∀ row ∈ s.taskRow loaded.id, row.version = loaded.version)
  | _ => true

def Section.saveCurrent (s : Store) {α : Type} : Section α → Bool
  | .read _ => true
  | .write update => update.saveCurrent s

/-- Every save that runs finds the version that was compared. -/
def saveCurrent : Pool.Condition Section Outside Store := fun _ body _ s ↦ body.saveCurrent s = true

/-! ### What an edit relies on -/

/-- No task goes, and no version goes back. -/
def VersionsGrow (s s' : Store) : Prop :=
  ∀ id row, s.taskRow id = some row → ∃ row', s'.taskRow id = some row' ∧ row.version ≤ row'.version

instance : Std.Refl VersionsGrow := ⟨fun _ _ row hrow ↦ ⟨row, hrow, le_rfl⟩⟩

instance : IsTrans Store VersionsGrow where
  trans s s' s'' hone htwo id row hrow := by
    obtain ⟨row', hrow', hle⟩ := hone id row hrow
    obtain ⟨row'', hrow'', hle'⟩ := htwo id row' hrow'
    exact ⟨row'', hrow'', hle.trans hle'⟩

/-- The version of a stored task is not smaller than a number. -/
def VersionFrom (task : TaskId) (version : ℕ) (s : Store) : Prop :=
  ∃ row, s.taskRow task = some row ∧ version ≤ row.version

theorem VersionFrom.later {task : TaskId} {version : ℕ} {s s' : Store}
    (h : VersionFrom task version s) (hlater : VersionsGrow s s') : VersionFrom task version s' := by
  obtain ⟨row, hrow, hle⟩ := h
  obtain ⟨row', hrow', hle'⟩ := hlater task row hrow
  exact ⟨row', hrow', hle.trans hle'⟩

/-- The save of an edit. -/
def Update.SavesAs (task : TaskId) (version : ℕ) {α : Type} : Update α → Prop
  | .saveTask _ _ loaded _ => loaded.id = task ∧ loaded.version = version
  | _ => False

/-- What an edit has to keep: it reads, or saves the version it names, which is not above the stored
one. -/
def EditSection (task : TaskId) (version : ℕ) (α : Type) (body : Section α) (s : Store) : Prop :=
  match body with
  | .read _ => True
  | .write update => update.SavesAs task version ∧ VersionFrom task version s

/-- A save takes the version of its task one further. -/
theorem versionFrom_saveTask {outside : Outside} {actor : Uid} {board : Board} {task a : Task}
    {draft : TaskDraft} {version : ℕ} {s s' : Store} (hfrom : VersionFrom task.id version s)
    (h : saveTask outside actor board task draft s = .ok (a, s')) :
    VersionFrom task.id (version + 1) s' := by
  obtain ⟨row, hrow, hle⟩ := hfrom
  have hsaved := Store.taskRow_modifyTask (s := s) task.id task.id
    (f := savedRow draft) fun _ ↦ rfl
  rw [if_pos rfl, hrow] at hsaved
  refine ⟨savedRow draft row, ?_, Nat.succ_le_succ hle⟩
  rw [Store.taskRow, (tasks_saveTask h).2]
  exact hsaved

theorem versionsGrow_saveTask {outside : Outside} {actor : Uid} {board : Board} {task a : Task}
    {draft : TaskDraft} {s s' : Store} (h : saveTask outside actor board task draft s = .ok (a, s')) :
    VersionsGrow s s' := by
  intro id row hrow
  have hsaved := Store.taskRow_modifyTask (s := s) task.id id
    (f := savedRow draft) fun _ ↦ rfl
  rw [Store.taskRow, (tasks_saveTask h).2]
  rw [hrow] at hsaved
  split_ifs at hsaved
  · exact ⟨_, hsaved, Nat.le_succ _⟩
  · exact ⟨row, hsaved, le_rfl⟩

/-- A section of an edit moves no version back. -/
theorem versionsGrow_section {task : TaskId} {version : ℕ} {α : Type} {body : Section α}
    {outside : Outside} {s : Store} (h : EditSection task version α body s) :
    VersionsGrow s (semantics.run body outside s).2 := by
  cases body with
  | read query => rw [snd_run_read]; exact refl_of VersionsGrow s
  | write update =>
    rcases snd_commit (update.work outside) s with hsame | ⟨a, hwork⟩
    · change VersionsGrow s (commit (update.work outside) s).2
      rw [hsame]
      exact refl_of VersionsGrow s
    · cases update with
      | saveTask actor board loaded draft => exact versionsGrow_saveTask hwork
      | _ => exact h.1.elim

/-- An edit reads, and saves what it names over a version that is not smaller. Once it is accepted the
version has moved on. -/
theorem meets_updateTask {actor : Actor} {task : TaskId} {version : ℕ} {draft : TaskDraft}
    {s : Store} : (handle actor (.updateTask task version draft)).Meets semantics VersionsGrow
      (EditSection task version) (fun _ s ↦ VersionFrom task (version + 1) s) s := by
  refine .bind (meets_loadTask (M := fun loaded s ↦ loaded.id = task ∧ VersionFrom task loaded.version s)
    (fun _ _ _ ↦ trivial) (fun _ _ _ hlater h ↦ ⟨h.1, h.2.later hlater⟩) ?_) ?_
  · intro loaded s' _ hloaded
    exact ⟨Store.id_of_task hloaded, _, Store.toTaskRow_of_task hloaded, le_rfl⟩
  · rintro ⟨board, loaded⟩ s' ⟨rfl, hfrom⟩
    refine .bind (M := fun _ s ↦ VersionFrom loaded.id loaded.version s) (fun _ _ ↦ hfrom) ?_
    intro _ s' hfrom
    refine .bind (M := fun _ s ↦ loaded.version = version ∧ VersionFrom loaded.id loaded.version s)
      ?_ ?_
    · unfold Thread.check
      split_ifs with hversion
      · exact fun _ _ ↦ ⟨hversion, hfrom⟩
      · exact fun _ h ↦ nomatch h
    · rintro _ s' ⟨rfl, hfrom⟩
      refine .bind (M := fun _ s ↦ VersionFrom loaded.id (loaded.version + 1) s) ?_ fun saved s'' h ↦
        Thread.meets_pure.mpr h
      refine Thread.meets_call fun s'' hlater ↦ ⟨⟨⟨rfl, rfl⟩, hfrom.later hlater⟩, ?_⟩
      intro outside a ha
      exact versionFrom_saveTask (hfrom.later hlater) (commit_eq_ok (Prod.ext ha rfl))

def Update.Saves {α : Type} : Update α → Prop
  | .saveTask _ _ _ _ => True
  | _ => False

/-- The section an accepted edit ends in. -/
def SaveSection (α : Type) (body : Section α) : Prop :=
  match body with
  | .read _ => False
  | .write update => update.Saves

/-- An edit is accepted by its save. -/
theorem endsIn_updateTask {actor : Actor} {task : TaskId} {version : ℕ} {draft : TaskDraft} :
    (handle actor (.updateTask task version draft)).EndsIn SaveSection :=
  .bind _ fun _ ↦ .bind _ fun _ ↦ .bind _ fun _ ↦ Thread.endsIn_call trivial

/-! ### Any interleaving -/

section Edits

variable {s : Store} {jobs : List Job} {server : Server Response}
  {C : Pool.Condition Section Outside Store}

/-- What the edit at a place of the list is of. -/
def editAt (jobs : List Job) (i : ℕ) : TaskId × ℕ := ((jobs[i]?).bind Job.edits).getD (0, 0)

/-- A list of edits has one at every place. -/
theorem handle_of_getElem? (hjobs : ∀ job ∈ jobs, job.edits.isSome) {i : ℕ} {thread : Call Response}
    (hthread : (serve s jobs).threads[i]? = some thread) :
    ∃ actor draft, thread = handle actor (.updateTask (editAt jobs i).1 (editAt jobs i).2 draft) := by
  simp only [serve, List.getElem?_map, Option.map_eq_some_iff] at hthread
  obtain ⟨job, hjob, rfl⟩ := hthread
  have hedit := hjobs job (List.mem_of_getElem? hjob)
  unfold editAt
  rw [hjob]
  cases job with
  | request actor req =>
    cases req with
    | updateTask id version draft => exact ⟨actor, draft, rfl⟩
    | _ => cases hedit
  | _ => cases hedit

/-- Each edit reads, and saves what it names over a version that is not smaller; once it is accepted the
version has moved on. -/
theorem meets_of_reaches (hjobs : ∀ job ∈ jobs, job.edits.isSome)
    (h : Pool.Reaches semantics C (serve s jobs) server) :
    ∀ (i : ℕ) (thread : Call Response), server.threads[i]? = some thread →
      thread.Meets semantics VersionsGrow (EditSection (editAt jobs i).1 (editAt jobs i).2)
        (fun _ s ↦ VersionFrom (editAt jobs i).1 ((editAt jobs i).2 + 1) s) server.state := by
  refine (h.meets (P := fun i ↦ EditSection (editAt jobs i).1 (editAt jobs i).2)
    (Q := fun i _ s ↦ VersionFrom (editAt jobs i).1 ((editAt jobs i).2 + 1) s)
    (I := fun _ ↦ True) ?_ ?_ trivial ?_).2
  · exact fun i _ s s' hlater hfrom ↦ hfrom.later hlater
  · exact fun i α body outside s _ hsection _ ↦ ⟨trivial, versionsGrow_section hsection⟩
  · intro i thread hthread
    obtain ⟨actor, draft, rfl⟩ := handle_of_getElem? hjobs hthread
    exact meets_updateTask

/-- Each edit has been answered or has its save before it. -/
theorem endsIn_of_reaches (hjobs : ∀ job ∈ jobs, job.edits.isSome)
    (h : Pool.Reaches semantics C (serve s jobs) server) :
    ∀ (i : ℕ) (thread : Call Response), server.threads[i]? = some thread →
      (∃ answer, thread = .done answer) ∨ thread.EndsIn SaveSection := by
  refine h.induct (P := fun server ↦ ∀ (i : ℕ) (thread : Call Response),
    server.threads[i]? = some thread → (∃ answer, thread = .done answer) ∨
      thread.EndsIn SaveSection) ?_ ?_
  · intro server i α body next outside hthread _ hall j thread hj
    rw [List.getElem?_set] at hj
    split_ifs at hj with hij hlt
    · obtain rfl := Option.some.inj hj
      rcases hall i _ hthread with ⟨answer, hdone⟩ | ⟨-, hlast⟩ | hends
      · cases hdone
      · exact .inl (hlast _)
      · exact .inr (hends _)
    · exact hall j thread hj
  · intro i thread hthread
    obtain ⟨actor, draft, rfl⟩ := handle_of_getElem? hjobs hthread
    exact .inr endsIn_updateTask

/-- Once an edit is accepted, no other edit of the version it named finds that version. -/
theorem not_accepted_of_accepted (hjobs : ∀ job ∈ jobs, job.edits.isSome)
    (h : Pool.Reaches semantics C (serve s jobs) server) {edit : TaskId × ℕ} {i k : ℕ} {α : Type}
    {body : Section α} {next : Except AppError α → Call Response} {outside : Outside}
    (hi : (jobs[i]?).bind Job.edits = some edit) (hk : (jobs[k]?).bind Job.edits = some edit)
    (haccepted : accepted server i) (hthread : server.threads[k]? = some (.lock body next))
    (hcurrent : saveCurrent α body outside server.state) (response : Response) :
    next (semantics.run body outside server.state).1 ≠ .done (.ok response) := by
  intro hdone
  obtain ⟨first, hfirst⟩ := accepted_iff.mp haccepted
  have hfrom := meets_of_reaches hjobs h i _ hfirst first rfl
  have hsection := (meets_of_reaches hjobs h k _ hthread _ (refl_of VersionsGrow _)).1
  rw [editAt, hi, Option.getD_some] at hfrom
  rw [editAt, hk, Option.getD_some] at hsection
  rcases endsIn_of_reaches hjobs h k _ hthread with ⟨answer, hanswer⟩ | ⟨hsave, -⟩ | hends
  · cases hanswer
  · cases body with
    | read query => exact hsave
    | write update =>
      cases update with
      | saveTask actor board loaded draft =>
        obtain ⟨hid, hversion⟩ := hsection.1
        obtain ⟨row, hrow, hle⟩ := hfrom
        have hsame := of_decide_eq_true hcurrent row (hid ▸ hrow)
        omega
      | _ => exact hsave
  · obtain ⟨error, herror⟩ := hdone ▸ hends (semantics.run body outside server.state).1
    cases herror

/-- Edits whose saves each find the version that was compared: of those that name one version at most
one is accepted, in every interleaving. -/
theorem atMostOneEdit_of_reaches (hjobs : ∀ job ∈ jobs, job.edits.isSome)
    (h : Pool.Reaches semantics saveCurrent (serve s jobs) server) : AtMostOneEdit jobs server := by
  induction h with
  | refl =>
    intro edit i j _ _ haccepted
    obtain ⟨response, hi⟩ := accepted_iff.mp haccepted
    obtain ⟨actor, draft, hthread⟩ := handle_of_getElem? hjobs hi
    cases hthread
  | tail hreach hstep ih =>
    cases hstep with
    | @lock k α body next outside hthread hcurrent =>
      intro edit i j hi hj haccepted haccepted'
      obtain ⟨one, hone⟩ := accepted_iff.mp haccepted
      obtain ⟨two, htwo⟩ := accepted_iff.mp haccepted'
      clear haccepted haccepted'
      rw [List.getElem?_set] at hone htwo
      split_ifs at hone htwo with hki hlt hkj hkj hlt'
      · exact hki.symm.trans hkj
      · subst hki
        exact absurd (Option.some.inj hone)
          (not_accepted_of_accepted hjobs hreach hj hi (accepted_iff.mpr ⟨two, htwo⟩) hthread hcurrent one)
      · subst hkj
        exact absurd (Option.some.inj htwo)
          (not_accepted_of_accepted hjobs hreach hi hj (accepted_iff.mpr ⟨one, hone⟩) hthread hcurrent two)
      · exact ih edit i j hi hj (accepted_iff.mpr ⟨one, hone⟩) (accepted_iff.mpr ⟨two, htwo⟩)

/-- Two people retitle a task from the same version. -/
def twoEdits : List Job :=
  [.request ⟨1, false⟩ (.updateTask 1 1 { TaskDraft.default with title := text "Oats" }),
    .request ⟨1, true⟩ (.updateTask 1 1 { TaskDraft.default with title := text "Rye" })]

/-- One after the other: the second is told of the conflict. -/
theorem atMostOneEdit_twoEdits_inTurn : AtMostOneEdit twoEdits
    ((serve (oneTask .default) twoEdits).play semantics
      ([0, 0, 0, 1, 1].map fun i ↦ (i, .still 0))) :=
  atMostOneEdit_of_reaches (by decide) (Pool.reaches_of_log (List.all_eq_true.mp (by decide +kernel)))

/-- Both load the task before either saves, and both are accepted. -/
theorem not_atMostOneEdit_twoEdits : ¬ AtMostOneEdit twoEdits
    ((serve (oneTask .default) twoEdits).play semantics
      ([0, 0, 1, 1, 0, 1].map fun i ↦ (i, .still 0))) := by
  intro h
  have hsame := h (1, 1) 0 1 rfl rfl (by unfold accepted; decide +kernel)
    (by unfold accepted; decide +kernel)
  cases hsame

end Edits

end Taskologic.Daemon
