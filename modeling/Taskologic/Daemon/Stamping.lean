import Taskologic.Daemon.TemplateDeps
import Taskologic.Core.TemplateOrder

/-!
# Stamping out a template

What `createFromTemplate` leaves behind: one new task for every template the root reaches and one for the root
(`Stamped`). The root's task depends on all the others. These carry the dependencies of their templates' drafts,
and a saved template has none (`bare_of_reaches`), so an edge between two templates is kept exactly where it starts
at the root: `keepsGraph_iff`.
-/

set_option autoImplicit false
set_option relaxedAutoImplicit false

namespace Taskologic.Daemon

open Taskologic.Core Taskologic.Library

/-! ### Making a task -/

section Making

variable {outside : Outside} {board : Board} {column : ColumnId} {draft : TaskDraft} {creator : Uid}
  {fromTemplate : Option TemplateId} {s s' : Store} {task : Task}

theorem keeps_setRepeat (outside : Outside) (task : TaskId) (spec : Option RepeatSpec) :
    Tx.Within (Tx.Keeps fun s : Store ↦ (s.templates, s.nextTask, s.deps)) (setRepeat outside task spec) := by
  cases spec with
  | none => exact .write fun _ ↦ rfl
  | some spec => exact .bind (.lift _) fun _ ↦ .write fun _ ↦ rfl

/-- What is written about a task: its dependencies take the place of those it had. -/
theorem deps_writeRelations {id : TaskId} {r : Unit × Store} (h : writeRelations outside id draft s = .ok r) :
    r.2.templates = s.templates ∧ r.2.nextTask = s.nextTask ∧
      r.2.deps = edgesOfOthers s.deps id ++ draft.dependsOn.dedup.map fun dep ↦ (id, dep) := by
  simp only [writeRelations, Tx.bind_eq_ok, demand_eq_ok, Tx.write_eq_ok, Prod.mk.injEq] at h
  obtain ⟨_, _, ⟨-, -, rfl⟩, _, _, ⟨-, rfl⟩, _, _, ⟨-, -, rfl⟩, _, _, ⟨-, rfl⟩, hrepeat⟩ := h
  have hkeeps := keeps_setRepeat _ _ _ _ _ _ hrepeat
  simp only [Tx.Keeps, Prod.mk.injEq] at hkeeps
  exact hkeeps

/-- A task that is made is one more row, with the dependencies of its draft. -/
theorem createTask_tables
    (h : createTask outside board column draft creator fromTemplate s = .ok (task, s')) :
    task.id = s.nextTask ∧ s'.nextTask = s.nextTask + 1 ∧ s'.templates = s.templates ∧
      (∃ row, row.id = s.nextTask ∧ row.templateId = fromTemplate ∧ s'.tasks = s.tasks ++ [row]) ∧
      s'.deps = edgesOfOthers s.deps s.nextTask ++ draft.dependsOn.dedup.map fun dep ↦ (s.nextTask, dep) := by
  simp only [createTask, Tx.bind_eq_ok, Tx.lift_eq_ok, Tx.read_eq_ok, Tx.require_eq_ok, demand_eq_ok,
    Tx.write_eq_ok, Prod.mk.injEq, recordEvent_eq_ok, requireTask_eq_ok] at h
  obtain ⟨_, _, ⟨_, -, -, rfl⟩, id, _, ⟨rfl, rfl⟩, _, _, ⟨rfl, rfl⟩, _, _, ⟨shortId, -, rfl, rfl⟩,
    position, _, hposition, _, _, ⟨-, -, rfl⟩, _, _, ⟨-, rfl⟩, _, _, hrelations, _, _, ⟨-, rfl⟩, _,
    hfound, rfl, rfl⟩ := h
  obtain rfl := reads_nextPosition _ _ _ _ hposition
  have htasks := tasks_writeRelations _ _ _ _ _ _ hrelations
  obtain ⟨htemplates, hnext, hdeps⟩ := deps_writeRelations hrelations
  exact ⟨Store.id_of_task hfound, hnext, htemplates, ⟨_, rfl, rfl, htasks⟩, hdeps⟩

end Making

/-! ### One task for each template -/

/-- Tasks were stamped out for some templates, in order, and depend on nothing. -/
structure Stamped (templates : List TemplateId) (made : List TaskRow) (s s' : Store) : Prop where
  tasks : s'.tasks = s.tasks ++ made
  templateIds : made.map TaskRow.templateId = templates.map some
  fresh : ∀ row ∈ made, s.nextTask ≤ row.id ∧ row.id < s'.nextTask
  nodup : (made.map TaskRow.id).Nodup
  grow : s.nextTask ≤ s'.nextTask
  templatesKept : s'.templates = s.templates
  deps : ∀ pair ∈ s'.deps, pair ∈ s.deps ∧ ∀ row ∈ made, row.id ≠ pair.1

theorem Stamped.refl (s : Store) : Stamped [] [] s s where
  tasks := (List.append_nil _).symm
  templateIds := rfl
  fresh := by simp
  nodup := List.nodup_nil
  grow := le_refl _
  templatesKept := rfl
  deps pair hpair := ⟨hpair, by simp⟩

theorem Stamped.trans {earlier later : List TemplateId} {made made' : List TaskRow} {s s' s'' : Store}
    (hfirst : Stamped earlier made s s') (hrest : Stamped later made' s' s'') :
    Stamped (earlier ++ later) (made ++ made') s s'' where
  tasks := by rw [hrest.tasks, hfirst.tasks, List.append_assoc]
  templateIds := by rw [List.map_append, List.map_append, hfirst.templateIds, hrest.templateIds]
  fresh row hrow := by
    rcases List.mem_append.mp hrow with hrow | hrow
    · exact ⟨(hfirst.fresh row hrow).1, (hfirst.fresh row hrow).2.trans_le hrest.grow⟩
    · exact ⟨hfirst.grow.trans (hrest.fresh row hrow).1, (hrest.fresh row hrow).2⟩
  nodup := by
    rw [List.map_append, List.nodup_append]
    refine ⟨hfirst.nodup, hrest.nodup, fun a ha b hb hsame ↦ ?_⟩
    obtain ⟨row, hrow, rfl⟩ := List.mem_map.mp ha
    obtain ⟨row', hrow', rfl⟩ := List.mem_map.mp hb
    have hbelow := (hfirst.fresh row hrow).2.trans_le (hrest.fresh row' hrow').1
    exact absurd hsame hbelow.ne
  grow := hfirst.grow.trans hrest.grow
  templatesKept := hrest.templatesKept.trans hfirst.templatesKept
  deps pair hpair := by
    obtain ⟨hbefore, hlater⟩ := hrest.deps pair hpair
    obtain ⟨hstart, hearlier⟩ := hfirst.deps pair hbefore
    refine ⟨hstart, fun row hrow ↦ ?_⟩
    rcases List.mem_append.mp hrow with hrow | hrow
    · exact hearlier row hrow
    · exact hlater row hrow

/-- The drafts of the templates have no task dependencies. -/
def Store.Bare (s : Store) : Prop := ∀ template ∈ s.templates, template.draft.dependsOn = []

section Stamps

variable {outside : Outside} {actor : Uid} {board : Board} {column : ColumnId}
  {anchors : TemplateId → Option Instant} {rootStart : Instant} {s s' : Store}

theorem stamped_stamp (hbare : s.Bare) {id : TemplateId} {answer : Option Task}
    (h : stamp outside actor board column anchors rootStart id s = .ok (answer, s')) :
    ∃ made, Stamped ([id].filter fun id ↦ (s.template id).isSome) made s s' ∧
      (answer.toList.map fun task ↦ task.id) = made.map TaskRow.id := by
  simp only [stamp, Tx.bind_eq_ok, Tx.read_eq_ok, Prod.mk.injEq] at h
  obtain ⟨_, _, ⟨rfl, rfl⟩, h⟩ := h
  cases hfound : s.template id with
  | none =>
    simp only [hfound, Tx.pure_eq_ok, Prod.mk.injEq] at h
    obtain ⟨rfl, rfl⟩ := h
    exact ⟨[], by simpa [hfound] using Stamped.refl s, rfl⟩
  | some template =>
    simp only [hfound, Tx.bind_eq_ok, Tx.pure_eq_ok, Prod.mk.injEq] at h
    obtain ⟨task, _, hcreate, rfl, rfl⟩ := h
    obtain ⟨hid, hnext, htemplates, ⟨row, hrow, htemplate, htasks⟩, hdeps⟩ := createTask_tables hcreate
    obtain ⟨hmem, rfl⟩ := mem_of_template hfound
    have hnone : (stampDraft outside template ((anchors template.id).getD rootStart)).dependsOn = [] :=
      hbare template hmem
    rw [hnone, List.dedup_nil, List.map_nil, List.append_nil] at hdeps
    refine ⟨[row], ⟨htasks, by simp [hfound, htemplate], ?_, List.nodup_singleton _, ?_, htemplates, ?_⟩, ?_⟩
    · intro other hother
      obtain rfl := List.mem_singleton.mp hother
      rw [hrow, hnext]
      exact ⟨le_refl _, Nat.lt_succ_self _⟩
    · rw [hnext]
      exact Nat.le_succ _
    · intro pair hpair
      rw [hdeps] at hpair
      obtain ⟨hmem, hother⟩ := List.mem_filter.mp hpair
      refine ⟨hmem, fun other hrow' ↦ ?_⟩
      obtain rfl := List.mem_singleton.mp hrow'
      rw [hrow]
      exact fun hsame ↦ by simp [hsame] at hother
    · simp [hid, hrow]

theorem stamped_each {ids : List TemplateId} {answers : List (Option Task)} (hbare : s.Bare)
    (h : Tx.each (stamp outside actor board column anchors rootStart) ids s = .ok (answers, s')) :
    ∃ made, Stamped (ids.filter fun id ↦ (s.template id).isSome) made s s' ∧
      ((answers.filterMap id).map fun task ↦ task.id) = made.map TaskRow.id := by
  induction ids generalizing s answers with
  | nil =>
    obtain ⟨rfl, rfl⟩ := Prod.ext_iff.mp (Tx.pure_eq_ok.mp h)
    exact ⟨[], .refl s, rfl⟩
  | cons first rest ih =>
    obtain ⟨answer, s₁, later, s₂, hone, htwo, hr⟩ := Tx.each_cons_eq_ok.mp h
    obtain ⟨rfl, rfl⟩ := Prod.ext_iff.mp hr
    obtain ⟨made, hmade, hanswer⟩ := stamped_stamp hbare hone
    have hsame (id : TemplateId) : s₁.template id = s.template id := by
      simp only [Store.template, hmade.templatesKept]
    have hbare₁ : s₁.Bare := by
      intro template hmem
      exact hbare template (hmade.templatesKept ▸ hmem)
    obtain ⟨made', hmade', hanswers⟩ := ih hbare₁ htwo
    refine ⟨made ++ made', ?_, ?_⟩
    · simp only [hsame] at hmade'
      have hsplit : (first :: rest).filter (fun id ↦ (s.template id).isSome) =
          [first].filter (fun id ↦ (s.template id).isSome) ++ rest.filter fun id ↦ (s.template id).isSome := by
        rw [← List.filter_append, List.singleton_append]
      rw [hsplit]
      exact hmade.trans hmade'
    · rw [List.map_append, ← hanswers, ← hanswer]
      cases answer <;> rfl

end Stamps

/-! ### The whole graph -/

/-- The edges among the templates of a board. -/
def Store.templateGraph (s : Store) (board : BoardId) : List (TemplateId × TemplateId) :=
  templateEdges (s.listTemplates board)

/-- A template to stamp out for a root: the root, or one the root reaches that is still there. -/
def Store.ToStamp (s : Store) (board : BoardId) (root template : TemplateId) : Prop :=
  template = root ∨ Reach (s.templateGraph board) root template ∧ (s.template template).isSome = true

/-- There is one new task for each template to stamp out, and where such a template depends on another, its task
depends on the other one's. -/
structure KeepsGraph (board : BoardId) (root : TemplateId) (made : List TaskRow) (s s' : Store) : Prop where
  tasks : s'.tasks = s.tasks ++ made
  only : ∀ row ∈ made, ∃ template, row.templateId = some template ∧ s.ToStamp board root template
  once : ∀ template, s.ToStamp board root template → ∃! row, row ∈ made ∧ row.templateId = some template
  edges : ∀ row ∈ made, ∀ dep ∈ made, ∀ template needed, row.templateId = some template →
    dep.templateId = some needed → Edge (s.templateGraph board) template needed → (row.id, dep.id) ∈ s'.deps

section Root

variable {outside : Outside} {actor : Uid} {board : Board} {root : TemplateId} {column : ColumnId}
  {draft : TaskDraft} {s s' : Store} {task : Task}

theorem mem_foldl_insertNew {entries more : List TaskId} {entry : TaskId} :
    entry ∈ more.foldl insertNew entries ↔ entry ∈ entries ∨ entry ∈ more := by
  induction more generalizing entries with
  | nil => simp
  | cons first rest ih =>
    rw [List.foldl_cons, ih, insertNew]
    split_ifs with hmem
    · constructor
      · exact fun h ↦ h.imp_right (List.mem_cons_of_mem _)
      · rintro (h | h)
        · exact .inl h
        · rcases List.mem_cons.mp h with rfl | h
          · exact .inl hmem
          · exact .inr h
    · simp [or_assoc]

/-- Tasks for all that the root reaches, and the root's own, which depends on all of them. -/
theorem stamped_createFromTemplate (hbare : s.Bare)
    (h : createFromTemplate outside actor board root column draft s = .ok (task, s')) :
    ∃ made own, (∃ s₁, Stamped ((expansionOrder (s.templateGraph board.id) root).filter fun id ↦
        (s.template id).isSome) made s s₁ ∧ own.id = s₁.nextTask) ∧
      own.templateId = some root ∧ s'.tasks = s.tasks ++ (made ++ [own]) ∧
      (∀ row ∈ made, ∀ dep, (row.id, dep) ∉ s'.deps) ∧ ∀ row ∈ made, (own.id, row.id) ∈ s'.deps := by
  simp only [createFromTemplate, Tx.bind_eq_ok, Tx.read_eq_ok, Prod.mk.injEq] at h
  obtain ⟨_, _, ⟨rfl, rfl⟩, answers, s₁, heach, _, _, hdeps, _, _, hprint, hcreate⟩ := h
  obtain rfl := reads_checkDeps _ _ _ _ _ _ hdeps
  obtain rfl := reads_checkPrintRecipients _ _ _ _ hprint
  obtain ⟨made, hmade, hanswers⟩ := stamped_each hbare heach
  obtain ⟨-, -, -, ⟨own, hown, htemplate, htasks⟩, hwritten⟩ := createTask_tables hcreate
  refine ⟨made, own, ⟨_, hmade, hown⟩, htemplate, ?_, fun row hrow dep hmem ↦ ?_, fun row hrow ↦ ?_⟩
  · rw [htasks, hmade.tasks, List.append_assoc]
  · rw [hwritten] at hmem
    rcases List.mem_append.mp hmem with hmem | hmem
    · exact (hmade.deps _ (List.mem_of_mem_filter hmem)).2 row hrow rfl
    · obtain ⟨_, -, hsame⟩ := List.mem_map.mp hmem
      have hid : s₁.nextTask = row.id := congrArg Prod.fst hsame
      exact absurd hid (hmade.fresh row hrow).2.ne'
  · rw [hwritten, hown]
    refine List.mem_append_right _ (List.mem_map_of_mem (List.mem_dedup.mpr ?_))
    rw [mem_foldl_insertNew, hanswers]
    exact .inr (List.mem_map_of_mem hrow)

/-- A template that the root reaches, still there, depends on another one that is. -/
def Store.Deep (s : Store) (board : BoardId) (root : TemplateId) : Prop :=
  ∃ template needed, Reach (s.templateGraph board) root template ∧ template ≠ root ∧
    (s.template template).isSome = true ∧ Edge (s.templateGraph board) template needed ∧
      (s.template needed).isSome = true

theorem mem_stamped_templates {template : TemplateId} :
    template ∈ ((expansionOrder (s.templateGraph board.id) root).filter fun id ↦ (s.template id).isSome) ↔
      s.ToStamp board.id root template ∧ template ≠ root := by
  rw [List.mem_filter, mem_expansionOrder, Store.ToStamp]
  tauto

/-- Making tasks from a template keeps its graph exactly if no template that the root depends on depends on
another: the edges from the root are kept, and no others. -/
theorem keepsGraph_iff (hacyclic : Acyclic (s.templateGraph board.id)) (hbare : s.Bare)
    (h : createFromTemplate outside actor board root column draft s = .ok (task, s')) :
    (∃ made, KeepsGraph board.id root made s s') ↔ ¬ s.Deep board.id root := by
  obtain ⟨made, own, ⟨s₁, hmade, hown⟩, hroot, htasks, hnone, hall⟩ := stamped_createFromTemplate hbare h
  have htemplates (row : TaskRow) (hrow : row ∈ made) :
      ∃ template, row.templateId = some template ∧ s.ToStamp board.id root template ∧ template ≠ root := by
    have hmem := List.mem_map_of_mem (f := TaskRow.templateId) hrow
    rw [hmade.templateIds] at hmem
    obtain ⟨template, htemplate, hsame⟩ := List.mem_map.mp hmem
    exact ⟨template, hsame.symm, mem_stamped_templates.mp htemplate⟩
  have hrows (template : TemplateId) (hstamp : s.ToStamp board.id root template) (hother : template ≠ root) :
      ∃ row ∈ made, row.templateId = some template := by
    have hmem := List.mem_map_of_mem (f := some) (mem_stamped_templates.mpr ⟨hstamp, hother⟩)
    rw [← hmade.templateIds] at hmem
    exact List.mem_map.mp hmem
  constructor
  · rintro ⟨made', hkeeps⟩ ⟨template, needed, hreach, hother, hthere, hedge, hthere'⟩
    obtain rfl : made' = made ++ [own] := List.append_cancel_left (hkeeps.tasks.symm.trans htasks)
    have hneeded : needed ≠ root := by
      rintro rfl
      exact hacyclic needed (.tail' hreach hedge)
    obtain ⟨row, hrow, htemplate⟩ := hrows template (.inr ⟨hreach, hthere⟩) hother
    obtain ⟨dep, hdep, hdepTemplate⟩ := hrows needed (.inr ⟨hreach.tail hedge, hthere'⟩) hneeded
    exact hnone row hrow dep.id (hkeeps.edges row (List.mem_append_left _ hrow) dep
      (List.mem_append_left _ hdep) template needed htemplate hdepTemplate hedge)
  · intro hshallow
    have hnodup : (made.map TaskRow.templateId).Nodup := by
      rw [hmade.templateIds]
      exact (nodup_expansionOrder.filter _).map (Option.some_injective _)
    refine ⟨made ++ [own], htasks, fun row hrow ↦ ?_, fun template hstamp ↦ ?_, ?_⟩
    · rcases List.mem_append.mp hrow with hrow | hrow
      · obtain ⟨template, htemplate, hstamp, -⟩ := htemplates row hrow
        exact ⟨template, htemplate, hstamp⟩
      · obtain rfl := List.mem_singleton.mp hrow
        exact ⟨root, hroot, .inl rfl⟩
    · by_cases hsame : template = root
      · subst hsame
        refine ⟨own, ⟨by simp, hroot⟩, fun row ⟨hrow, htemplate⟩ ↦ ?_⟩
        rcases List.mem_append.mp hrow with hrow | hrow
        · obtain ⟨other, hother, -, hne⟩ := htemplates row hrow
          exact absurd (Option.some.inj (hother.symm.trans htemplate)) hne
        · exact List.mem_singleton.mp hrow
      · obtain ⟨row, hrow, htemplate⟩ := hrows template hstamp hsame
        refine ⟨row, ⟨List.mem_append_left _ hrow, htemplate⟩, fun other ⟨hother, hotherTemplate⟩ ↦ ?_⟩
        rcases List.mem_append.mp hother with hother | hother
        · exact List.inj_on_of_nodup_map hnodup hother hrow (hotherTemplate.trans htemplate.symm)
        · obtain rfl := List.mem_singleton.mp hother
          exact absurd (Option.some.inj (hotherTemplate.symm.trans hroot)) hsame
    · intro row hrow dep hdep template needed htemplate hneeded hedge
      -- An edge that ends at the root would close a cycle, one that starts below it there is not.
      have hbelow : dep ∈ made := by
        rcases List.mem_append.mp hdep with hdep | hdep
        · exact hdep
        · obtain rfl := List.mem_singleton.mp hdep
          obtain rfl := Option.some.inj (hneeded.symm.trans hroot)
          rcases List.mem_append.mp hrow with hrow | hrow
          · obtain ⟨other, hother, hstamp, hne⟩ := htemplates row hrow
            obtain rfl := Option.some.inj (htemplate.symm.trans hother)
            exact absurd (.tail' (hstamp.resolve_left hne).1 hedge) (hacyclic needed)
          · obtain rfl := List.mem_singleton.mp hrow
            obtain rfl := Option.some.inj (htemplate.symm.trans hroot)
            exact absurd (.single hedge) (hacyclic template)
      rcases List.mem_append.mp hrow with hrow | hrow
      · obtain ⟨other, hother, hstamp, hne⟩ := htemplates row hrow
        obtain rfl := Option.some.inj (htemplate.symm.trans hother)
        obtain ⟨found, hfound, hstamp', hne'⟩ := htemplates dep hbelow
        obtain rfl := Option.some.inj (hneeded.symm.trans hfound)
        have hreach := hstamp.resolve_left hne
        exact absurd ⟨template, needed, hreach.1, hne, hreach.2, hedge, (hstamp'.resolve_left hne').2⟩ hshallow
      · obtain rfl := List.mem_singleton.mp hrow
        exact hall dep hbelow

end Root

/-! ### Saved templates are bare -/

/-- Templates that were bare stay so. -/
def StaysBare (s s' : Store) : Prop := s.Bare → s'.Bare

instance : Std.Refl StaysBare := ⟨fun _ h ↦ h⟩

instance : IsTrans Store StaysBare := ⟨fun _ _ _ hone htwo h ↦ htwo (hone h)⟩

section Saves

variable {outside : Outside} {s s' : Store} {owner : Uid} {draft : TaskDraft} {options : TemplateOptions}

theorem staysBare_createTemplate (outside : Outside) (board : BoardId) (owner : Uid) (name : Text)
    (options : TemplateOptions) (hbare : draft.dependsOn = []) :
    Tx.Within StaysBare (createTemplate outside board owner name draft options) := by
  refine .bind (.read _) fun id ↦ .bind (.read _) fun _ ↦ .bind (.require _ _) fun shortId ↦
    .bind (reads_demand _ _).within fun _ ↦ .bind (.write fun s h template hmem ↦ ?_) fun _ ↦
      (reads_requireTemplate _).within
  rcases List.mem_append.mp hmem with hmem | hmem
  · exact h template hmem
  · obtain rfl := List.mem_singleton.mp hmem
    exact hbare

theorem staysBare_updateTemplate (id : TemplateId) (name : Text) (options : TemplateOptions)
    (hbare : draft.dependsOn = []) : Tx.Within StaysBare (updateTemplate id name draft options) := by
  refine .bind (.write fun s h template hmem ↦ ?_) fun _ ↦ (reads_requireTemplate _).within
  obtain ⟨before, hbefore, rfl⟩ := List.mem_map.mp hmem
  split_ifs
  · exact hbare
  · exact h before hbefore

theorem staysBare_recordEvent (board : BoardId) (task : Option TaskId) (actor : Option Uid) (kind : EventKind)
    (now : Instant) : Tx.Within StaysBare (recordEvent board task actor kind now) := .write fun _ h ↦ h

/-- What is saved of a draft has no dates and no task dependencies, and passed its checks. -/
theorem stripped_templateInput {board : Board} {id : TemplateId} {name saved : Text} {given : TaskDraft}
    (h : templateInput board id name given options s = .ok ((saved, draft), s')) :
    draft = { given with startAt := none, dueAt := none, dependsOn := [] } ∧
      validateDraft draft board = .ok () := by
  simp only [templateInput, Tx.bind_eq_ok, Tx.check_eq_ok, Tx.read_eq_ok, Tx.lift_eq_ok, Prod.mk.injEq] at h
  obtain ⟨_, _, ⟨-, -, rfl⟩, _, _, ⟨-, -, rfl⟩, _, _, ⟨rfl, rfl⟩, _, _, ⟨_, -, -, rfl⟩, h⟩ := h
  cases hcycle : firstCycle (templateEdges (Store.listTemplates _ board.id)) id options.depTemplates with
  | some dep =>
    rw [hcycle] at h
    exact (Tx.fail_eq_ok.mp h).elim
  | none =>
    simp only [hcycle, Tx.bind_eq_ok, Tx.lift_eq_ok, Tx.pure_eq_ok, Prod.mk.injEq] at h
    obtain ⟨_, _, ⟨_, hpass, -, -⟩, _, _, -, ⟨-, rfl⟩, -⟩ := h
    exact ⟨rfl, mapError_eq_ok.mp hpass⟩

theorem staysBare_makeTemplate (outside : Outside) (actor : Uid) (board : Board) (name : Text) (given : TaskDraft)
    (options : TemplateOptions) : Tx.Within StaysBare (makeTemplate outside actor board name given options) := by
  intro s template s' h
  simp only [makeTemplate, Tx.bind_eq_ok, Tx.pure_eq_ok, Prod.mk.injEq] at h
  obtain ⟨⟨_, _⟩, _, hinput, created, s₁, hcreate, _, _, hevent, -, rfl⟩ := h
  obtain rfl := reads_templateInput _ _ _ _ _ _ _ _ hinput
  obtain ⟨rfl, -⟩ := stripped_templateInput hinput
  intro hbare
  exact staysBare_recordEvent _ _ _ _ _ _ _ _ hevent
    (staysBare_createTemplate outside _ _ _ _ (by rfl) _ _ _ hcreate hbare)

theorem staysBare_saveTemplate (outside : Outside) (actor : Uid) (board : Board) (id : TemplateId) (name : Text)
    (given : TaskDraft) (options : TemplateOptions) :
    Tx.Within StaysBare (saveTemplate outside actor board id name given options) := by
  intro s template s' h
  simp only [saveTemplate, Tx.bind_eq_ok, Tx.pure_eq_ok, Prod.mk.injEq] at h
  obtain ⟨⟨_, _⟩, _, hinput, saved, s₁, hupdate, _, _, hevent, -, rfl⟩ := h
  obtain rfl := reads_templateInput _ _ _ _ _ _ _ _ hinput
  obtain ⟨rfl, -⟩ := stripped_templateInput hinput
  intro hbare
  exact staysBare_recordEvent _ _ _ _ _ _ _ _ hevent
    (staysBare_updateTemplate _ _ _ (by rfl) _ _ _ hupdate hbare)

theorem staysBare_dropTemplate (outside : Outside) (actor : Uid) (board : Board) (id : TemplateId) :
    Tx.Within StaysBare (dropTemplate outside actor board id) :=
  .bind (staysBare_recordEvent _ _ _ _ _) fun _ ↦
    .write fun _ h template hmem ↦ h template (List.mem_of_mem_filter hmem)

theorem staysBare_keepTemplateShortId (id : TemplateId) (shortId : Option ShortId) :
    Tx.Within StaysBare (keepTemplateShortId id shortId) := by
  cases shortId with
  | none => exact .pure _
  | some shortId =>
    refine .write fun s h template hmem ↦ ?_
    obtain ⟨before, hbefore, rfl⟩ := List.mem_map.mp hmem
    split_ifs <;> exact h before hbefore

theorem staysBare_writeEntry (outside : Outside) (owner : Uid) (board : Board) (clash : Clash)
    (names : TemplateNames) (existing : Option Template) (entry : TemplateEntry) :
    Tx.Within StaysBare (writeEntry outside owner board clash names existing entry) := by
  intro s pair s' h
  simp only [writeEntry, Tx.bind_eq_ok, Tx.read_eq_ok, Tx.lift_eq_ok, Prod.mk.injEq] at h
  obtain ⟨_, _, ⟨rfl, rfl⟩, _, _, ⟨_, -, -, rfl⟩, _, _, ⟨rfl, rfl⟩, h⟩ := h
  cases hcycle : firstCycle (templateEdges (s.listTemplates board.id)) 0 (entry.depTemplates names) with
  | some dep =>
    rw [hcycle] at h
    exact (Tx.fail_eq_ok.mp h).elim
  | none =>
    rw [hcycle] at h
    cases hreplacing : clash.replacing existing with
    | some old =>
      simp only [hreplacing, Tx.bind_eq_ok, Tx.mapError_eq_ok, Tx.pure_eq_ok, Prod.mk.injEq] at h
      obtain ⟨template, _, hreplace, -, rfl⟩ := h
      have hwithin : Tx.Within StaysBare
          (replaceTemplate outside owner old.id entry (s.draftOn board entry) (entry.options names)) :=
        .bind (staysBare_updateTemplate _ _ _ (by rfl)) fun _ ↦
          .bind (staysBare_recordEvent _ _ _ _ _) fun _ ↦ .pure _
      exact hwithin _ _ _ hreplace
    | none =>
      simp only [hreplacing, Tx.bind_eq_ok, Tx.mapError_eq_ok, Tx.pure_eq_ok, Prod.mk.injEq] at h
      obtain ⟨template, _, hadd, -, rfl⟩ := h
      have hwithin : Tx.Within StaysBare
          (addTemplate outside owner board.id (if existing.isSome then none else entry.shortId) entry
            (s.draftOn board entry) (entry.options names)) :=
        .bind (staysBare_createTemplate outside _ _ _ _ (by rfl)) fun _ ↦
          .bind (staysBare_keepTemplateShortId _ _) fun _ ↦
            .bind (staysBare_recordEvent _ _ _ _ _) fun _ ↦ .pure _
      exact hwithin _ _ _ hadd

theorem staysBare_importEntry (outside : Outside) (owner : Uid) (board : Board) (clash : Clash)
    (names : TemplateNames) (entry : TemplateEntry) :
    Tx.Within StaysBare (importEntry outside owner board clash names entry) := by
  refine .bind (.read _) fun existing ↦ ?_
  cases existing with
  | some old =>
    refine .bind (.mapError _ (reads_requireBoard _).within) fun holder ↦ ?_
    cases clash with
    | refuse => exact .fail _
    | newId => exact .bind (staysBare_writeEntry _ _ _ _ _ _ _) fun _ ↦ .pure _
    | replace => exact staysBare_writeEntry _ _ _ _ _ _ _
  | none =>
    dsimp only
    cases valueAt? names (matchKey entry.name) with
    | some id => exact .pure _
    | none => exact staysBare_writeEntry _ _ _ _ _ _ _

theorem staysBare_importEntries (outside : Outside) (owner : Uid) (board : Board) (clash : Clash)
    (names : TemplateNames) (entries : List TemplateEntry) :
    Tx.Within StaysBare (importEntries outside owner board clash names entries) := by
  induction entries generalizing names with
  | nil => exact .pure _
  | cons entry rest ih =>
    exact .bind (staysBare_importEntry _ _ _ _ _ _) fun (names, _) ↦ .bind (ih names) fun _ ↦ .pure _

/-- Whatever is saved and read from template files, templates stay without task dependencies. -/
theorem bare_of_reaches {allowed : TemplateImport → Store → Prop} (hbare : s.Bare)
    (h : TemplatesReach allowed s s') : s'.Bare := by
  induction h with
  | refl => exact hbare
  | aside before htemplates hnext ih => exact fun template hmem ↦ ih hbare template (htemplates.subset hmem)
  | make before outside actor board name draft options template hmake ih =>
    exact staysBare_makeTemplate _ _ _ _ _ _ _ _ _ hmake (ih hbare)
  | save before old board hold hboard between outside actor name draft options template hsave ih ihBetween =>
    exact staysBare_saveTemplate _ _ _ _ _ _ _ _ _ _ hsave (ihBetween (ih hbare))
  | drop before outside actor board id hdrop ih =>
    exact staysBare_dropTemplate _ _ _ _ _ _ _ hdrop (ih hbare)
  | read before i hallowed notes hread ih =>
    have hwithin : Tx.Within StaysBare i.run :=
      .bind (.read _) fun _ ↦ .bind (.lift _) fun _ ↦ .bind (.lift _) fun _ ↦ .bind (.read _) fun _ ↦
        .bind (staysBare_importEntries _ _ _ _ _ _) fun _ ↦ .pure _
    exact hwithin _ _ _ hread (ih hbare)

end Saves

/-! ### Washing, drying, ironing -/

/-- What is ironed was dried before, and what is dried was washed. -/
def washDryAndIron : Store := (commit (saveOne (text "Iron") [2]) washAndDry).2

def stampOne (root : TemplateId) : Work Task :=
  createFromTemplate (.still 0) 1 (boardWithMembers 1 [1]) root 1 { TaskDraft.default with title := text "Laundry" }

/-- Drying needs what was washed, and nothing further down. -/
theorem keepsGraph_iff_drying :
    ∃ task s', stampOne 2 washAndDry = .ok (task, s') ∧ ∃ made, KeepsGraph 1 2 made washAndDry s' := by
  have hgraph : washAndDry.templateGraph 1 = [(2, 1)] := by decide +kernel
  have hacyclic : Acyclic (washAndDry.templateGraph 1) := hgraph ▸ .of_rank (fun id ↦ 2 - id) (by decide)
  have hreach : TemplatesReach TemplateImport.Fits bareBoard washAndDry := .washAndDry
  have hbare : washAndDry.Bare := bare_of_reaches (fun _ h ↦ absurd h List.not_mem_nil) hreach
  obtain hsame | ⟨task, hrun⟩ := snd_commit (stampOne 2) washAndDry
  · exact absurd (congrArg (fun s : Store ↦ s.tasks.length) hsame) (by decide +kernel)
  · refine ⟨task, _, hrun, (keepsGraph_iff hacyclic hbare hrun).2 ?_⟩
    rintro ⟨template, needed, -, hother, -, hedge, -⟩
    have hmem : (template, needed) ∈ [(2, 1)] := hgraph ▸ hedge
    exact hother (congrArg Prod.fst (List.mem_singleton.mp hmem))

/-- Of three templates in a row, the task for the second does not depend on the one for the third. -/
theorem drying_forgets_washing :
    ∃ task s', stampOne 3 washDryAndIron = .ok (task, s') ∧ s'.deps = [(3, 1), (3, 2)] ∧
      washDryAndIron.templateGraph 1 = [(2, 1), (3, 2)] ∧ ¬ ∃ made, KeepsGraph 1 3 made washDryAndIron s' := by
  have hgraph : washDryAndIron.templateGraph 1 = [(2, 1), (3, 2)] := by decide +kernel
  obtain hsame | ⟨task, hrun⟩ := snd_commit (stampOne 3) washDryAndIron
  · exact absurd (congrArg (fun s : Store ↦ s.tasks.length) hsame) (by decide +kernel)
  · refine ⟨task, _, hrun, by decide +kernel, hgraph, ?_⟩
    rintro ⟨made, hkeeps⟩
    have hmade : made = (commit (stampOne 3) washDryAndIron).2.tasks := by
      have hnone : washDryAndIron.tasks = [] := by decide +kernel
      have htasks := hkeeps.tasks
      rw [hnone, List.nil_append] at htasks
      exact htasks.symm
    have hlost : ∃ row ∈ (commit (stampOne 3) washDryAndIron).2.tasks,
        ∃ dep ∈ (commit (stampOne 3) washDryAndIron).2.tasks, row.templateId = some 2 ∧ dep.templateId = some 1 ∧
          (row.id, dep.id) ∉ (commit (stampOne 3) washDryAndIron).2.deps := by decide +kernel
    obtain ⟨row, hrow, dep, hdep, htemplate, hneeded, hmissing⟩ := hlost
    rw [← hmade] at hrow hdep
    refine hmissing (hkeeps.edges row hrow dep hdep 2 1 htemplate hneeded ?_)
    rw [hgraph]
    exact List.mem_cons_self

end Taskologic.Daemon
