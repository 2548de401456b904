import Taskologic.Daemon.Accounts
import Taskologic.Daemon.TemplateFiles
import Taskologic.Library.LocalGraph

/-!
# What templates depend on

Templates depend on other templates of their board, and not in circles (`DependenciesSound`). Saving a template
checks that against the graph with the template's own id. Importing checks every entry as if it were new, also one
that takes the place of a template others depend on already, and the template replaced may be on another board
than the dependencies. So the graph stays sound over every run in which the entries of every file fit
(`dependenciesSound_of_reaches`), and what an entry does is sound just when it fits (`local_importEntry_iff`).
-/

set_option autoImplicit false
set_option relaxedAutoImplicit false

namespace Taskologic.Daemon

open Taskologic.Core Taskologic.Library

/-- What is said about dependencies in every state: they join two templates of a board, without a cycle. -/
structure DependenciesSound (s : Store) : Prop where
  oneBoard : ∀ template ∈ s.templates, ∀ dep ∈ s.templates, dep.id ∈ template.options.depTemplates →
    dep.boardId = template.boardId
  acyclic : Acyclic (templateEdges s.templates)

/-! ### Templates as nodes -/

/-- A template as a node of the graph, with its board for a place. -/
def templateNode (template : Template) : Node BoardId :=
  ⟨template.id, template.boardId, template.options.depTemplates⟩

def Store.templateNodes (s : Store) : List (Node BoardId) := s.templates.map templateNode

theorem edgesOf_map_node (templates : List Template) :
    edgesOf (templates.map templateNode) = templateEdges templates := by
  simp [edgesOf, templateEdges, List.flatMap_map, templateNode]

theorem nodes_listTemplates (s : Store) (board : BoardId) : (s.listTemplates board).map templateNode =
    s.templateNodes.filter fun node ↦ node.place = board := by
  rw [Store.templateNodes, List.filter_map]
  exact congrArg _ (List.filter_congr fun template _ ↦ beq_eq_decide template.boardId board)

/-- The nodes of the store and the ids to come. -/
abbrev Store.LocalTemplates (s : Store) : Prop := Local s.templateNodes s.nextTemplate

theorem Store.LocalTemplates.sound {s : Store} (h : s.LocalTemplates) : DependenciesSound s where
  oneBoard _ htemplate _ hdep hmem :=
    h.samePlace _ (List.mem_map_of_mem htemplate) _ (List.mem_map_of_mem hdep) hmem
  acyclic := edgesOf_map_node s.templates ▸ h.acyclic

/-! ### What the statements do -/

section Statements

variable {outside : Outside} {s s' : Store} {board : BoardId} {owner : Uid} {id : TemplateId} {name : Text}
  {draft : TaskDraft} {options : TemplateOptions} {template : Template}

theorem mem_of_template (h : s.template id = some template) : template ∈ s.templates ∧ template.id = id :=
  ⟨List.mem_of_find?_eq_some h, by simpa using List.find?_some h⟩

theorem of_createTemplate (h : createTemplate outside board owner name draft options s = .ok (template, s')) :
    template.id = s.nextTemplate ∧ s'.nextTemplate = s.nextTemplate + 1 ∧
      s'.templateNodes = s.templateNodes ++ [⟨s.nextTemplate, board, options.depTemplates⟩] := by
  simp only [createTemplate, Tx.bind_eq_ok, Tx.read_eq_ok, Tx.require_eq_ok, Tx.write_eq_ok, demand_eq_ok,
    requireTemplate_eq_ok, Prod.mk.injEq] at h
  obtain ⟨_, _, ⟨rfl, rfl⟩, _, _, ⟨rfl, rfl⟩, _, _, ⟨shortId, -, rfl, rfl⟩, _, _, ⟨-, -, rfl⟩, _, _, ⟨-, rfl⟩,
    _, hfound, rfl, rfl⟩ := h
  exact ⟨(mem_of_template hfound).2, rfl, List.map_append⟩

theorem of_updateTemplate (h : updateTemplate id name draft options s = .ok (template, s')) :
    template.id = id ∧ (∃ before ∈ s.templates, before.id = id) ∧ s'.nextTemplate = s.nextTemplate ∧
      s'.templateNodes = setDeps s.templateNodes id options.depTemplates := by
  simp only [updateTemplate, Tx.bind_eq_ok, Tx.write_eq_ok, requireTemplate_eq_ok, Prod.mk.injEq] at h
  obtain ⟨_, _, ⟨-, rfl⟩, _, hfound, rfl, rfl⟩ := h
  obtain ⟨hmem, hid⟩ := mem_of_template hfound
  obtain ⟨before, hbefore, hsame⟩ := List.mem_map.mp hmem
  refine ⟨hid, ⟨before, hbefore, ?_⟩, rfl, ?_⟩
  · by_contra hother
    rw [if_neg hother] at hsame
    exact hother (hsame ▸ hid)
  · simp only [Store.templateNodes, setDeps, List.map_map]
    refine List.map_congr_left fun t _ ↦ ?_
    simp only [Function.comp_apply, templateNode, Node.redirect]
    by_cases hsame : t.id = id <;> simp [hsame]

theorem of_recordEvent {task : Option TaskId} {actor : Option Uid} {kind : EventKind} {now : Instant} {r : Unit × Store}
    (h : recordEvent board task actor kind now s = .ok r) :
    r.2.templateNodes = s.templateNodes ∧ r.2.nextTemplate = s.nextTemplate := by
  rw [recordEvent, Tx.write_eq_ok] at h
  subst h
  exact ⟨rfl, rfl⟩

end Statements

/-! ### Saving -/

section Saving

variable {outside : Outside} {s s' : Store} {board : Board} {actor : Uid} {id : TemplateId} {name : Text}
  {draft : TaskDraft} {options : TemplateOptions} {template : Template}

/-- What a template that is saved depends on is on the board, and nothing of it depends on the template. -/
theorem of_templateInput {r : (Text × TaskDraft) × Store}
    (h : templateInput board id name draft options s = .ok r) : r.2 = s ∧
    (∀ dep ∈ options.depTemplates, ∃ t ∈ s.templates, t.id = dep ∧ t.boardId = board.id) ∧
      ∀ dep ∈ options.depTemplates, ¬ Reach (templateEdges (s.listTemplates board.id)) dep id := by
  have hsame := reads_templateInput board id name draft options s r.1 r.2 h
  simp only [templateInput, Tx.bind_eq_ok, Tx.check_eq_ok, Tx.read_eq_ok, Tx.lift_eq_ok, Prod.mk.injEq] at h
  obtain ⟨_, _, ⟨-, -, rfl⟩, _, _, ⟨-, -, rfl⟩, _, _, ⟨rfl, rfl⟩, _, _, ⟨_, hdeps, -, rfl⟩, h⟩ := h
  refine ⟨hsame.symm, fun dep hdep ↦ ?_, ?_⟩
  · have hcheck := checkAll_eq_ok.mp hdeps dep hdep
    simp only [checkTemplateDep, bind_unit_eq_ok, ensure_eq_ok] at hcheck
    obtain ⟨t, ht, rfl⟩ := List.mem_map.mp hcheck.2
    obtain ⟨hmem, hboard⟩ := List.mem_filter.mp ht
    exact ⟨t, hmem, rfl, eq_of_beq hboard⟩
  · rw [← firstCycle_eq_none_iff]
    cases hcycle : firstCycle (templateEdges (Store.listTemplates _ board.id)) id options.depTemplates with
    | none => rfl
    | some dep =>
      rw [hcycle] at h
      exact (Tx.fail_eq_ok.mp h).elim

/-- Dependencies on templates of one board are there, and in its place. -/
theorem known_and_inPlace {b : BoardId} {deps : List TemplateId} (hlocal : s.LocalTemplates)
    (hdeps : ∀ dep ∈ deps, ∃ t ∈ s.templates, t.id = dep ∧ t.boardId = b) :
    Known s.templateNodes deps ∧ InPlace s.templateNodes b deps := by
  constructor
  · intro dep hdep
    obtain ⟨t, ht, rfl, -⟩ := hdeps dep hdep
    exact ⟨templateNode t, List.mem_map_of_mem ht, rfl⟩
  · intro node hnode hdep
    obtain ⟨t, ht, hid, rfl⟩ := hdeps node.id hdep
    rw [List.inj_on_of_nodup_map hlocal.keyed hnode (List.mem_map_of_mem ht) hid.symm]
    rfl

theorem of_makeTemplate (hlocal : s.LocalTemplates)
    (h : makeTemplate outside actor board name draft options s = .ok (template, s')) :
    s'.LocalTemplates ∧ Placed s.templateNodes s.nextTemplate s'.templateNodes s'.nextTemplate := by
  simp only [makeTemplate, Tx.bind_eq_ok, Tx.pure_eq_ok, Prod.mk.injEq] at h
  obtain ⟨_, _, hinput, created, s₁, hcreate, _, _, hevent, rfl, rfl⟩ := h
  obtain ⟨rfl, hdeps, -⟩ := of_templateInput hinput
  obtain ⟨-, hnext, hnodes⟩ := of_createTemplate hcreate
  obtain ⟨hsame, hnextSame⟩ := of_recordEvent hevent
  obtain ⟨hknown, hplace⟩ := known_and_inPlace hlocal hdeps
  rw [Store.LocalTemplates, hsame, hnextSame, hnodes, hnext]
  exact ⟨(hlocal.add_iff rfl hknown).mpr hplace, .add rfl⟩

theorem of_saveTemplate (hlocal : s.LocalTemplates) (hboard : ∀ t ∈ s.templates, t.id = id → t.boardId = board.id)
    (h : saveTemplate outside actor board id name draft options s = .ok (template, s')) :
    s'.LocalTemplates ∧ Placed s.templateNodes s.nextTemplate s'.templateNodes s'.nextTemplate := by
  simp only [saveTemplate, Tx.bind_eq_ok, Tx.pure_eq_ok, Prod.mk.injEq] at h
  obtain ⟨_, _, hinput, saved, s₁, hupdate, _, _, hevent, rfl, rfl⟩ := h
  obtain ⟨rfl, hdeps, hacyclic⟩ := of_templateInput hinput
  obtain ⟨-, ⟨before, hbefore, rfl⟩, hnext, hnodes⟩ := of_updateTemplate hupdate
  obtain ⟨hsame, hnextSame⟩ := of_recordEvent hevent
  obtain ⟨hknown, hplace⟩ := known_and_inPlace hlocal hdeps
  rw [Store.LocalTemplates, hsame, hnextSame, hnodes, hnext]
  refine ⟨(hlocal.replace_iff (List.mem_map_of_mem hbefore) hknown).mpr ⟨?_, fun dep hdep hreach ↦ ?_⟩, .setDeps ..⟩
  · rwa [← hboard before hbefore rfl] at hplace
  · obtain ⟨t, ht, rfl, hthere⟩ := hdeps dep hdep
    have hwithin := hlocal.reach_place (List.mem_map_of_mem ht) hthere hreach
    rw [← nodes_listTemplates, edgesOf_map_node] at hwithin
    exact hacyclic t.id hdep hwithin

theorem of_dropTemplate {r : Unit × Store} (h : dropTemplate outside actor board id s = .ok r) :
    r.2.templateNodes.Sublist s.templateNodes ∧ r.2.nextTemplate = s.nextTemplate := by
  simp only [dropTemplate, Tx.bind_eq_ok] at h
  obtain ⟨_, s₁, hevent, hdelete⟩ := h
  obtain ⟨hsame, hnextSame⟩ := of_recordEvent hevent
  rw [deleteTemplate, Tx.write_eq_ok] at hdelete
  subst hdelete
  exact ⟨hsame ▸ List.filter_sublist.map templateNode, hnextSame⟩

end Saving

/-! ### Importing -/

namespace TemplateEntry

variable (s : Store) (board : BoardId) (clash : Clash) (names : TemplateNames) (entry : TemplateEntry)

/-- The board has a template of the entry's name, and it is left as it is. -/
def isLeft : Bool := (entry.existing s).isNone && (valueAt? names (matchKey entry.name)).isSome

/-- What the entry depends on is on a board. -/
def DepsOn (board : BoardId) : Prop :=
  ∀ t ∈ s.templates, t.id ∈ entry.depTemplates names → t.boardId = board

/-- An entry that is not left out fits when what it depends on is on the board where the entry will be, and when
nothing of it depends on the template whose place the entry takes. -/
def Fits : Prop :=
  entry.isLeft s names = false →
    match clash.replacing (entry.existing s) with
    | some old => entry.DepsOn s names old.boardId ∧
        ∀ dep ∈ entry.depTemplates names, ¬ Reach (templateEdges s.templates) dep old.id
    | none => entry.DepsOn s names board

end TemplateEntry

/-- The names stand for templates that are there. -/
def TemplateNames.Live (s : Store) (names : TemplateNames) : Prop :=
  ∀ name id, valueAt? names name = some id → ∃ node ∈ s.templateNodes, node.id = id

section Importing

variable {outside : Outside} {s s' : Store} {board : Board} {owner : Uid} {clash : Clash} {names names' : TemplateNames}
  {notes : List TemplateNote} {entry : TemplateEntry}

theorem known_depTemplates (hlive : names.Live s) : Known s.templateNodes (entry.depTemplates names) := by
  intro dep hdep
  obtain ⟨name, -, hfound⟩ := List.mem_filterMap.mp hdep
  exact hlive _ _ hfound

theorem inPlace_iff_depsOn {b : BoardId} :
    InPlace s.templateNodes b (entry.depTemplates names) ↔ entry.DepsOn s names b :=
  List.forall_mem_map

/-- The template whose place an entry takes is there. -/
theorem mem_of_replacing {old : Template} (h : clash.replacing (entry.existing s) = some old) :
    old ∈ s.templates := by
  unfold Clash.replacing at h
  split_ifs at h
  obtain ⟨_, -, hfound⟩ := Option.bind_eq_some_iff.mp h
  exact List.mem_of_find?_eq_some hfound

/-- What an entry does: nothing, the entry takes the place of a template, or it is a new one. -/
inductive EntryEffect (s : Store) (board : BoardId) (clash : Clash) (names : TemplateNames)
    (entry : TemplateEntry) (names' : TemplateNames) (s' : Store) : Prop where
  | left (hleft : entry.isLeft s names = true) (hnames : names' = names) (hstore : s' = s)
  | replaced (old : Template) (hleft : entry.isLeft s names = false)
      (hold : clash.replacing (entry.existing s) = some old) (hnames : names' = (matchKey entry.name, old.id) :: names)
      (hnext : s'.nextTemplate = s.nextTemplate)
      (hnodes : s'.templateNodes = setDeps s.templateNodes old.id (entry.depTemplates names))
  | added (hleft : entry.isLeft s names = false) (hnew : clash.replacing (entry.existing s) = none)
      (hnames : names' = (matchKey entry.name, s.nextTemplate) :: names)
      (hnext : s'.nextTemplate = s.nextTemplate + 1)
      (hnodes : s'.templateNodes =
        s.templateNodes ++ [⟨s.nextTemplate, board, entry.depTemplates names⟩])

theorem of_replaceTemplate {old : TemplateId} {draft : TaskDraft} {options : TemplateOptions} {template : Template}
    (h : replaceTemplate outside owner old entry draft options s = .ok (template, s')) :
    template.id = old ∧ s'.nextTemplate = s.nextTemplate ∧
      s'.templateNodes = setDeps s.templateNodes old options.depTemplates := by
  simp only [replaceTemplate, Tx.bind_eq_ok, Tx.pure_eq_ok, Prod.mk.injEq] at h
  obtain ⟨_, _, hupdate, _, _, hevent, rfl, rfl⟩ := h
  obtain ⟨hid, -, hnext, hnodes⟩ := of_updateTemplate hupdate
  obtain ⟨hsame, hnextSame⟩ := of_recordEvent hevent
  exact ⟨hid, hnextSame.trans hnext, hsame.trans hnodes⟩

theorem of_keepTemplateShortId {id : TemplateId} {keptId : Option ShortId} {r : Unit × Store}
    (h : keepTemplateShortId id keptId s = .ok r) :
    r.2.templateNodes = s.templateNodes ∧ r.2.nextTemplate = s.nextTemplate := by
  cases keptId with
  | none =>
    obtain rfl := Tx.pure_eq_ok.mp h
    exact ⟨rfl, rfl⟩
  | some shortId =>
    rw [keepTemplateShortId, Tx.write_eq_ok] at h
    subst h
    refine ⟨?_, rfl⟩
    simp only [Store.templateNodes, List.map_map]
    refine List.map_congr_left fun t _ ↦ ?_
    simp only [Function.comp_apply, templateNode]
    split_ifs <;> rfl

theorem of_addTemplate {b : BoardId} {keptId : Option ShortId} {draft : TaskDraft} {options : TemplateOptions}
    {template : Template} (h : addTemplate outside owner b keptId entry draft options s = .ok (template, s')) :
    template.id = s.nextTemplate ∧ s'.nextTemplate = s.nextTemplate + 1 ∧
      s'.templateNodes = s.templateNodes ++ [⟨s.nextTemplate, b, options.depTemplates⟩] := by
  simp only [addTemplate, Tx.bind_eq_ok, Tx.pure_eq_ok, Prod.mk.injEq] at h
  obtain ⟨created, s₁, hcreate, _, s₂, hshort, _, _, hevent, rfl, rfl⟩ := h
  obtain ⟨hid, hnext, hnodes⟩ := of_createTemplate hcreate
  obtain ⟨hsame, hnextSame⟩ := of_recordEvent hevent
  obtain ⟨hkept, hnextKept⟩ := of_keepTemplateShortId hshort
  exact ⟨hid, hnextSame.trans (hnextKept.trans hnext), hsame.trans (hkept.trans hnodes)⟩

theorem entryEffect_of_writeEntry {existing : Option Template} (hexisting : entry.existing s = existing)
    (hleft : entry.isLeft s names = false)
    (h : writeEntry outside owner board clash names existing entry s = .ok ((names', notes), s')) :
    EntryEffect s board.id clash names entry names' s' := by
  simp only [writeEntry, Tx.bind_eq_ok, Tx.read_eq_ok, Tx.lift_eq_ok, Prod.mk.injEq] at h
  obtain ⟨_, _, ⟨rfl, rfl⟩, _, _, ⟨_, -, -, rfl⟩, _, _, ⟨rfl, rfl⟩, h⟩ := h
  cases hcycle : firstCycle (templateEdges (s.listTemplates board.id)) 0 (entry.depTemplates names) with
  | some dep =>
    rw [hcycle] at h
    exact (Tx.fail_eq_ok.mp h).elim
  | none =>
    rw [hcycle] at h
    cases hreplacing : clash.replacing existing with
    | some old =>
      simp only [hreplacing, Tx.bind_eq_ok, Tx.mapError_eq_ok, Tx.pure_eq_ok, Prod.mk.injEq] at h
      obtain ⟨template, _, hreplace, ⟨rfl, rfl⟩, rfl⟩ := h
      obtain ⟨hid, hnext, hnodes⟩ := of_replaceTemplate hreplace
      exact .replaced old hleft (hexisting ▸ hreplacing) (by rw [hid]) hnext hnodes
    | none =>
      simp only [hreplacing, Tx.bind_eq_ok, Tx.mapError_eq_ok, Tx.pure_eq_ok, Prod.mk.injEq] at h
      obtain ⟨template, _, hadd, ⟨rfl, rfl⟩, rfl⟩ := h
      obtain ⟨hid, hnext, hnodes⟩ := of_addTemplate hadd
      exact .added hleft (hexisting ▸ hreplacing) (by rw [hid]) hnext hnodes

theorem entryEffect_of_importEntry
    (h : importEntry outside owner board clash names entry s = .ok ((names', notes), s')) :
    EntryEffect s board.id clash names entry names' s' := by
  simp only [importEntry, Tx.bind_eq_ok, Tx.read_eq_ok, Prod.mk.injEq] at h
  obtain ⟨_, _, ⟨rfl, rfl⟩, h⟩ := h
  cases hexisting : entry.existing s with
  | some old =>
    have hleft : entry.isLeft s names = false := by simp [TemplateEntry.isLeft, hexisting]
    simp only [hexisting, Tx.bind_eq_ok, Tx.mapError_eq_ok, requireBoard_eq_ok] at h
    obtain ⟨holder, _, ⟨_, -, hr⟩, h⟩ := h
    obtain ⟨rfl, rfl⟩ := Prod.ext_iff.mp hr
    cases clash with
    | refuse => exact (Tx.fail_eq_ok.mp h).elim
    | newId =>
      simp only [Tx.bind_eq_ok, Tx.pure_eq_ok, Prod.mk.injEq] at h
      obtain ⟨⟨_, _⟩, _, hwrite, ⟨rfl, rfl⟩, rfl⟩ := h
      exact entryEffect_of_writeEntry hexisting hleft hwrite
    | replace => exact entryEffect_of_writeEntry hexisting hleft h
  | none =>
    simp only [hexisting] at h
    cases hfound : valueAt? names (matchKey entry.name) with
    | some id =>
      simp only [hfound, Tx.pure_eq_ok, Prod.mk.injEq] at h
      obtain ⟨⟨rfl, rfl⟩, rfl⟩ := h
      exact .left (by simp [TemplateEntry.isLeft, hexisting, hfound]) rfl rfl
    | none =>
      simp only [hfound] at h
      exact entryEffect_of_writeEntry hexisting (by simp [TemplateEntry.isLeft, hfound]) h

/-- An entry keeps the graph in order just when it fits. -/
theorem local_importEntry_iff (hlocal : s.LocalTemplates) (hlive : names.Live s)
    (h : importEntry outside owner board clash names entry s = .ok ((names', notes), s')) :
    s'.LocalTemplates ↔ entry.Fits s board.id clash names := by
  have hknown : Known s.templateNodes (entry.depTemplates names) := known_depTemplates hlive
  unfold TemplateEntry.Fits Store.LocalTemplates
  cases entryEffect_of_importEntry h with
  | left hleft hnames hstore =>
    rw [hstore, hleft]
    exact iff_of_true hlocal fun hnot ↦ (Bool.noConfusion hnot)
  | replaced old hleft hold hnames hnext hnodes =>
    have hmem : old ∈ s.templates := mem_of_replacing hold
    have hreplace := hlocal.replace_iff (List.mem_map_of_mem (f := templateNode) hmem) hknown
    rw [inPlace_iff_depsOn, Store.templateNodes, edgesOf_map_node] at hreplace
    rw [hnext, hnodes, hold, hleft]
    exact hreplace.trans ⟨fun hfits _ ↦ hfits, fun hfits ↦ hfits rfl⟩
  | added hleft hnew hnames hnext hnodes =>
    have hadd : Local (s.templateNodes ++ [⟨s.nextTemplate, board.id, entry.depTemplates names⟩])
        (s.nextTemplate + 1) ↔ InPlace s.templateNodes board.id (entry.depTemplates names) :=
      hlocal.add_iff rfl hknown
    rw [inPlace_iff_depsOn] at hadd
    rw [hnext, hnodes, hnew, hleft]
    exact hadd.trans ⟨fun hfits _ ↦ hfits, fun hfits ↦ hfits rfl⟩

/-- Whatever it does, an entry leaves templates where they are and names for templates that are there. -/
theorem placed_importEntry (hlive : names.Live s)
    (h : importEntry outside owner board clash names entry s = .ok ((names', notes), s')) :
    names'.Live s' ∧ Placed s.templateNodes s.nextTemplate s'.templateNodes s'.nextTemplate := by
  cases entryEffect_of_importEntry h with
  | left hleft hnames hstore =>
    subst hnames hstore
    exact ⟨hlive, .sublist (.refl _)⟩
  | replaced old hleft hold hnames hnext hnodes =>
    have hmem : old ∈ s.templates := mem_of_replacing hold
    subst hnames
    rw [hnext, hnodes]
    refine ⟨fun name id hfound ↦ ?_, .setDeps ..⟩
    have hbefore : ∃ node ∈ s.templateNodes, node.id = id := by
      rw [valueAt?_cons] at hfound
      split_ifs at hfound
      · exact ⟨templateNode old, List.mem_map_of_mem hmem, Option.some.inj hfound⟩
      · exact hlive name id hfound
    obtain ⟨node, hnode, hid⟩ := hbefore
    rw [hnodes]
    exact ⟨_, List.mem_map_of_mem hnode, (Node.redirect_id ..).trans hid⟩
  | added hleft hnew hnames hnext hnodes =>
    subst hnames
    rw [hnext, hnodes]
    refine ⟨fun name id hfound ↦ ?_, .add rfl⟩
    rw [hnodes]
    rw [valueAt?_cons] at hfound
    split_ifs at hfound
    · exact ⟨_, List.mem_append_right _ (List.mem_singleton.mpr rfl), Option.some.inj hfound⟩
    · obtain ⟨node, hnode, hid⟩ := hlive name id hfound
      exact ⟨node, List.mem_append_left _ hnode, hid⟩

/-- Every entry fits when its turn comes. -/
def EntriesFit (outside : Outside) (owner : Uid) (board : Board) (clash : Clash) :
    TemplateNames → List TemplateEntry → Store → Prop
  | _, [], _ => True
  | names, entry :: rest, s => entry.Fits s board.id clash names ∧
      ∀ names' notes s', importEntry outside owner board clash names entry s = .ok ((names', notes), s') →
        EntriesFit outside owner board clash names' rest s'

theorem local_importEntries {entries : List TemplateEntry} (hlocal : s.LocalTemplates) (hlive : names.Live s)
    (hfit : EntriesFit outside owner board clash names entries s)
    (h : importEntries outside owner board clash names entries s = .ok ((names', notes), s')) :
    s'.LocalTemplates ∧ Placed s.templateNodes s.nextTemplate s'.templateNodes s'.nextTemplate := by
  induction entries generalizing names notes s with
  | nil =>
    obtain ⟨-, rfl⟩ := Prod.ext_iff.mp (Tx.pure_eq_ok.mp h)
    exact ⟨hlocal, .sublist (.refl _)⟩
  | cons entry rest ih =>
    simp only [importEntries, Tx.bind_eq_ok, Tx.pure_eq_ok, Prod.mk.injEq] at h
    obtain ⟨⟨names₁, notes₁⟩, s₁, hentry, ⟨names₂, notes₂⟩, s₂, hrest, ⟨rfl, -⟩, rfl⟩ := h
    obtain ⟨hlive₁, hplaced⟩ := placed_importEntry hlive hentry
    obtain ⟨hlocal₂, hplaced₂⟩ := ih ((local_importEntry_iff hlocal hlive hentry).mpr hfit.1) hlive₁
      (hfit.2 _ _ _ hentry) hrest
    exact ⟨hlocal₂, hplaced.trans hplaced₂⟩

theorem live_templateNames (b : BoardId) : (s.templateNames b).Live s := by
  intro name id hfound
  obtain ⟨t, ht, hsame⟩ := List.mem_map.mp (List.mem_reverse.mp (mem_of_valueAt? hfound))
  have hmem : t ∈ s.listTemplates b := (List.perm_insertionSort _ _).mem_iff.mp ht
  exact ⟨templateNode t, List.mem_map_of_mem (List.mem_of_mem_filter hmem), congrArg Prod.snd hsame⟩

end Importing

/-! ### Over a run -/

/-- The reading of a template file by the operator. -/
structure TemplateImport where
  outside : Outside
  owner : Uid
  boardName : Text
  file : TemplateFile
  clash : Clash

namespace TemplateImport

variable (i : TemplateImport)

def run : TemplateWork (List TemplateNote) := importTemplateFile i.outside i.owner i.boardName i.file i.clash

/-- The entries of the file fit, each when its turn comes. -/
def Fits (s : Store) : Prop :=
  ∀ board, s.boardNamed i.boardName = .ok board →
    EntriesFit i.outside i.owner board i.clash (s.templateNames board.id) i.file.templates s

end TemplateImport

/-- What the store may be after templates were saved, edited, deleted and read from files that are allowed, in any
order. An edit goes by the board it has loaded, and other requests may come in between. Whatever else happens to the
store makes no template; it may take the templates of a board away with the board. -/
inductive TemplatesReach (allowed : TemplateImport → Store → Prop) : Store → Store → Prop where
  | refl (s : Store) : TemplatesReach allowed s s
  | aside {start s s' : Store} (before : TemplatesReach allowed start s)
      (htemplates : s'.templates.Sublist s.templates) (hnext : s'.nextTemplate = s.nextTemplate) :
      TemplatesReach allowed start s'
  | make {start s s' : Store} (before : TemplatesReach allowed start s) (outside : Outside) (actor : Uid)
      (board : Board) (name : Text) (draft : TaskDraft) (options : TemplateOptions) (template : Template)
      (h : makeTemplate outside actor board name draft options s = .ok (template, s')) :
      TemplatesReach allowed start s'
  | save {start loaded s s' : Store} (before : TemplatesReach allowed start loaded) (old : Template) (board : Board)
      (hold : old ∈ loaded.templates) (hboard : loaded.board old.boardId = some board)
      (between : TemplatesReach allowed loaded s) (outside : Outside) (actor : Uid) (name : Text) (draft : TaskDraft)
      (options : TemplateOptions) (template : Template)
      (h : saveTemplate outside actor board old.id name draft options s = .ok (template, s')) :
      TemplatesReach allowed start s'
  | drop {start s s' : Store} (before : TemplatesReach allowed start s) (outside : Outside) (actor : Uid)
      (board : Board) (id : TemplateId) (h : dropTemplate outside actor board id s = .ok ((), s')) :
      TemplatesReach allowed start s'
  | read {start s s' : Store} (before : TemplatesReach allowed start s) (i : TemplateImport)
      (hallowed : allowed i s) (notes : List TemplateNote) (h : i.run s = .ok (notes, s')) :
      TemplatesReach allowed start s'

section Run

variable {s s' : Store} {i : TemplateImport} {notes : List TemplateNote}

theorem of_importTemplateFile (hlocal : s.LocalTemplates) (hfits : i.Fits s) (h : i.run s = .ok (notes, s')) :
    s'.LocalTemplates ∧ Placed s.templateNodes s.nextTemplate s'.templateNodes s'.nextTemplate := by
  simp only [TemplateImport.run, importTemplateFile, Tx.bind_eq_ok, Tx.read_eq_ok, Tx.lift_eq_ok, Tx.pure_eq_ok,
    Prod.mk.injEq] at h
  obtain ⟨_, _, ⟨rfl, rfl⟩, _, _, ⟨board, hboard, rfl, rfl⟩, _, _, ⟨_, -, -, rfl⟩, _, _, ⟨rfl, rfl⟩,
    ⟨names, notes⟩, _, hentries, -, rfl⟩ := h
  exact local_importEntries hlocal (live_templateNames board.id)
    (hfits board (mapError_eq_ok.mp hboard)) hentries

/-- A template is still on the board that was loaded with it. -/
theorem boardId_of_placed {loaded : Store} {old t : Template} {board : Board} (hloaded : loaded.LocalTemplates)
    (hold : old ∈ loaded.templates) (hboard : loaded.board old.boardId = some board)
    (hplaced : Placed loaded.templateNodes loaded.nextTemplate s.templateNodes s.nextTemplate)
    (ht : t ∈ s.templates) (hid : t.id = old.id) : t.boardId = board.id := by
  have hbelow : t.id < loaded.nextTemplate := hid ▸ hloaded.idBelow _ (List.mem_map_of_mem hold)
  obtain ⟨node, hnode, hsame, hplace⟩ := hplaced.kept (templateNode t) (List.mem_map_of_mem ht) hbelow
  have hone := List.inj_on_of_nodup_map hloaded.keyed hnode (List.mem_map_of_mem hold) (hsame.trans hid)
  rw [hone] at hplace
  exact hplace.symm.trans (Store.id_of_board hboard).symm

/-- The graph stays in order over a run of imports that fit, and templates stay where they are. -/
theorem local_of_reaches (hlocal : s.LocalTemplates) (h : TemplatesReach TemplateImport.Fits s s') :
    s'.LocalTemplates ∧ Placed s.templateNodes s.nextTemplate s'.templateNodes s'.nextTemplate := by
  induction h with
  | refl => exact ⟨hlocal, .sublist (.refl _)⟩
  | aside before htemplates hnext ih =>
    obtain ⟨hbefore, hplaced⟩ := ih hlocal
    have hsub := htemplates.map templateNode
    rw [Store.LocalTemplates, hnext]
    exact ⟨hbefore.sublist hsub, hplaced.trans (.sublist hsub)⟩
  | make before outside actor board name draft options template hmake ih =>
    obtain ⟨hbefore, hplaced⟩ := ih hlocal
    obtain ⟨hafter, hstep⟩ := of_makeTemplate hbefore hmake
    exact ⟨hafter, hplaced.trans hstep⟩
  | save before old board hold hboard between outside actor name draft options template hsave ih ihBetween =>
    obtain ⟨hloaded, hplaced⟩ := ih hlocal
    obtain ⟨hbefore, hkept⟩ := ihBetween hloaded
    obtain ⟨hafter, hstep⟩ := of_saveTemplate hbefore (fun t ht hid ↦
      boardId_of_placed hloaded hold hboard hkept ht hid) hsave
    exact ⟨hafter, hplaced.trans (hkept.trans hstep)⟩
  | drop before outside actor board id hdrop ih =>
    obtain ⟨hbefore, hplaced⟩ := ih hlocal
    obtain ⟨hsub, hnext⟩ := of_dropTemplate hdrop
    rw [Store.LocalTemplates, hnext]
    exact ⟨hbefore.sublist hsub, hplaced.trans (.sublist hsub)⟩
  | read before i hfits notes hread ih =>
    obtain ⟨hbefore, hplaced⟩ := ih hlocal
    obtain ⟨hafter, hstep⟩ := of_importTemplateFile hbefore hfits hread
    exact ⟨hafter, hplaced.trans hstep⟩

/-- From a server without templates, as long as the entries of the files that are read fit, dependencies join
templates of one board and close no cycle. -/
theorem dependenciesSound_of_reaches (hnone : s.templates = [])
    (h : TemplatesReach TemplateImport.Fits s s') : DependenciesSound s' := by
  have hlocal : s.LocalTemplates := by
    rw [Store.LocalTemplates, Store.templateNodes, hnone]
    exact .nil
  exact (local_of_reaches hlocal h).1.sound

end Run

/-! ### A cycle out of a file -/

/-- A board and its owner. -/
def bareBoard : Store :=
  { Store.empty with
    users := [⟨1, true, Tz.utc⟩]
    boards := [boardWithMembers 1 [1]]
    nextBoard := 2
    nextColumn := 5 }

def saveOne (name : Text) (deps : List TemplateId) : Work Template :=
  makeTemplate (.still 0) 1 (boardWithMembers 1 [1]) name { TaskDraft.default with title := name }
    { TemplateOptions.default with depTemplates := deps }

/-- What is washed is dried: the second template depends on the first. -/
def washAndDry : Store := (commit (saveOne (text "Dry") [1]) (commit (saveOne (text "Wash") []) bareBoard).2).2

def entryCalled (name : Text) (shortId : ShortId) (deps : List Text) : TemplateEntry :=
  ⟨name, shortId, { TaskDraft.default with title := name }, none, none, none, deps⟩

/-- A file with the first template, which is to take the place of the one that is here, and with another of the second
one's name. -/
def washAgain (deps : List Text) : TemplateImport :=
  ⟨.still 0, 1, text "Test board", ⟨1, text "template", text "Wash",
    [entryCalled (text "Dry") (.fromIndex 7) [], entryCalled (text "Wash") (.fromIndex 32) deps]⟩, .replace⟩

/-- The store after the file was read, or the store as it was if it was refused. -/
def TemplateImport.after (i : TemplateImport) (s : Store) : Store :=
  match i.run s with
  | .ok (_, s') => s'
  | .error _ => s

section Washing

variable {allowed : TemplateImport → Store → Prop} {start s : Store}

theorem TemplatesReach.saveOne (h : TemplatesReach allowed start s) (name : Text) (deps : List TemplateId) :
    TemplatesReach allowed start (commit (saveOne name deps) s).2 := by
  obtain hsame | ⟨template, hmake⟩ := snd_commit (Daemon.saveOne name deps) s
  · rwa [hsame]
  · exact h.make _ _ _ _ _ _ _ hmake

theorem TemplatesReach.after (h : TemplatesReach allowed start s) {i : TemplateImport} (hallowed : allowed i s) :
    TemplatesReach allowed start (i.after s) := by
  unfold TemplateImport.after
  split
  · rename_i notes s' hread
    exact h.read i hallowed notes hread
  · exact h

theorem TemplatesReach.washAndDry : TemplatesReach allowed bareBoard washAndDry :=
  ((TemplatesReach.refl bareBoard).saveOne _ _).saveOne _ _

end Washing

/-- Entries without dependencies fit everywhere. -/
theorem entriesFit_of_nil {outside : Outside} {owner : Uid} {board : Board} {clash : Clash} {names : TemplateNames}
    {entries : List TemplateEntry} {s : Store} (hnone : ∀ entry ∈ entries, entry.dependsOn = []) :
    EntriesFit outside owner board clash names entries s := by
  induction entries generalizing names s with
  | nil => trivial
  | cons entry rest ih =>
    obtain ⟨hentry, hrest⟩ := List.forall_mem_cons.mp hnone
    have hdeps : entry.depTemplates names = [] := by rw [TemplateEntry.depTemplates, hentry, List.filterMap_nil]
    refine ⟨fun _ ↦ ?_, fun _ _ _ _ ↦ ih hrest⟩
    have hon (b : BoardId) : entry.DepsOn s names b := fun t _ hdep ↦ by simp [hdeps] at hdep
    cases clash.replacing (entry.existing s) with
    | some old => exact ⟨hon old.boardId, by simp [hdeps]⟩
    | none => exact hon board.id

/-- A file whose entry needs nothing is read in its place. -/
theorem dependenciesSound_washAgain :
    (washAgain []).after washAndDry ≠ washAndDry ∧ DependenciesSound ((washAgain []).after washAndDry) := by
  refine ⟨fun hsame ↦ ?_, ?_⟩
  · have hnames := congrArg (fun s ↦ s.events.length) hsame
    revert hnames
    decide +kernel
  · refine dependenciesSound_of_reaches rfl (TemplatesReach.washAndDry.after fun board _ ↦ entriesFit_of_nil ?_)
    decide +kernel

/-- The file says that what is washed was dried before, and nothing objects: each now depends on the other. -/
theorem not_dependenciesSound_washAgain : ¬ ∀ s s', s.templates = [] →
    TemplatesReach (fun _ _ ↦ True) s s' → DependenciesSound s' := by
  intro h
  have hsound := h bareBoard ((washAgain [text "Dry"]).after washAndDry) rfl (TemplatesReach.washAndDry.after trivial)
  have hedges : templateEdges ((washAgain [text "Dry"]).after washAndDry).templates = [(1, 2), (2, 1)] := by
    decide +kernel
  have hcycle := hsound.acyclic
  rw [hedges] at hcycle
  exact hcycle 1 (.tail (.single (by simp [Edge])) (show Edge [(1, 2), (2, 1)] 2 1 by simp [Edge]))

end Taskologic.Daemon
