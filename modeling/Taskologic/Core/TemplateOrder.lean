import Taskologic.Core.Template
import Taskologic.Library.Earliest
import Taskologic.Library.PostOrder

/-!
# The order templates are stamped out in

The walk of `expansionOrder` is a post-order walk (`walk_postOrder`): it is never inside of more templates than there
are dependencies, so its turns are enough on every graph. The order contains what the root reaches, each template once
and the root left out, and where there are no cycles a template comes after all it depends on
(`expansionOrder_exact`).

Backwards the order is one in which every template has been handed a moment before its turn comes. So `prefillAnchors`
gives each template the earliest start among those that need it (`prefillAnchors_earliest`), the root counting as one
that starts at the given moment.
-/

set_option autoImplicit false
set_option relaxedAutoImplicit false

namespace Taskologic.Core

open Library Relation

variable {depsOf : List (TemplateId × TemplateId)} {root : TemplateId}

/-! ### The walk -/

/-- What a walk can be inside of: templates that depend on some, each once. -/
structure Inside (depsOf : List (TemplateId × TemplateId)) (onStack : List TemplateId) : Prop where
  once : onStack.Nodup
  leads : ∀ template ∈ onStack, template ∈ depsOf.map Prod.fst

theorem Inside.length_le {onStack : List TemplateId} (h : Inside depsOf onStack) :
    onStack.length ≤ depsOf.length := by
  have hlength := (h.once.subperm h.leads).length_le
  rwa [List.length_map] at hlength

/-- The walk goes on into the dependencies of one more template. -/
theorem Inside.enter {onStack : List TemplateId} {template dep : TemplateId} (h : Inside depsOf onStack)
    (hnew : template ∉ onStack) (hdep : dep ∈ successors depsOf template) : Inside depsOf (template :: onStack) where
  once := List.nodup_cons.mpr ⟨hnew, h.once⟩
  leads := List.forall_mem_cons.mpr ⟨List.mem_map_of_mem (mem_successors.mp hdep), h.leads⟩

/-- Where the walk ends that emits some templates. -/
def Walk.emit (state : Walk) (order : List TemplateId) : Walk :=
  ⟨order.reverse ++ state.done, state.onStack, state.out ++ order⟩

theorem Walk.emit_emit (state : Walk) (first later : List TemplateId) :
    (state.emit first).emit later = state.emit (first ++ later) := by
  simp [Walk.emit]

/-- Walking some templates one after another. -/
theorem foldl_walk_postOrder {fuel : ℕ} {templates : List TemplateId} (state : Walk)
    (hwalk : ∀ template ∈ templates, ∀ between : Walk, between.onStack = state.onStack → ∃ order,
      PostOrder (successors depsOf) between.onStack between.done [template] order ∧
        walk depsOf fuel template between = between.emit order) :
    ∃ order, PostOrder (successors depsOf) state.onStack state.done templates order ∧
      templates.foldl (fun state dep ↦ walk depsOf fuel dep state) state = state.emit order := by
  induction templates generalizing state with
  | nil => exact ⟨[], .done, by simp [Walk.emit]⟩
  | cons template rest ih =>
    obtain ⟨first, hfirst, hemit⟩ := hwalk template List.mem_cons_self state rfl
    obtain ⟨later, hlater, hrest⟩ := ih (state.emit first)
      fun other hother between hsame ↦ hwalk other (List.mem_cons_of_mem _ hother) between hsame
    exact ⟨first ++ later, hfirst.cons hlater, by rw [List.foldl_cons, hemit, hrest, Walk.emit_emit]⟩

/-- With a turn for each dependency the walk is not inside of yet, and one more, the walk of a template is a post-order
walk. -/
theorem walk_postOrder (fuel : ℕ) (template : TemplateId) (state : Walk) (hinside : Inside depsOf state.onStack)
    (hfuel : depsOf.length < fuel + state.onStack.length) :
    ∃ order, PostOrder (successors depsOf) state.onStack state.done [template] order ∧
      walk depsOf fuel template state = state.emit order := by
  induction fuel generalizing template state with
  | zero =>
    have hlength := hinside.length_le
    omega
  | succ fuel ih =>
    rw [walk]
    split_ifs with hseen
    · exact ⟨[], .skip hseen .done, by simp [Walk.emit]⟩
    · obtain ⟨hunfinished, hout⟩ := not_or.mp hseen
      have hdeps : ∀ dep ∈ successors depsOf template, ∀ between : Walk,
          between.onStack = template :: state.onStack → ∃ order,
            PostOrder (successors depsOf) between.onStack between.done [dep] order ∧
              walk depsOf fuel dep between = between.emit order := by
        intro dep hdep between hsame
        refine ih dep between (hsame ▸ hinside.enter hout hdep) ?_
        rw [hsame, List.length_cons]
        omega
      obtain ⟨inner, hinner, hfold⟩ :=
        foldl_walk_postOrder { state with onStack := template :: state.onStack } hdeps
      refine ⟨inner ++ [template], .enter hunfinished hout hinner .done, ?_⟩
      simp [hfold, Walk.emit]

/-! ### The order -/

/-- The order is what the walk from the root emits before the root. -/
theorem expansionOrder_walk (depsOf : List (TemplateId × TemplateId)) (root : TemplateId) :
    PostOrder (successors depsOf) [] [] [root] (expansionOrder depsOf root ++ [root]) := by
  have hinside : Inside depsOf [] := ⟨List.nodup_nil, by simp⟩
  obtain ⟨order, horder, hemit⟩ := walk_postOrder (depsOf.length + 2) root ⟨[], [], []⟩ hinside (by simp)
  obtain ⟨inner, rfl, -⟩ := horder.of_root
  have hinner : expansionOrder depsOf root = inner := by
    rw [expansionOrder, hemit]
    simp [Walk.emit]
  rwa [hinner]

theorem nodup_expansionOrder : (expansionOrder depsOf root).Nodup :=
  (List.nodup_append.mp (expansionOrder_walk depsOf root).nodup).1

/-- The order contains what the root reaches, but not the root. -/
theorem mem_expansionOrder {template : TemplateId} :
    template ∈ expansionOrder depsOf root ↔ Reach depsOf root template ∧ template ≠ root := by
  have hwalk := expansionOrder_walk depsOf root
  obtain ⟨_, -, hmem⟩ := hwalk.of_root
  rw [leads_successors] at hmem
  have hlast := List.disjoint_of_nodup_append hwalk.nodup
  constructor
  · intro h
    refine ⟨(hmem template).mp (List.mem_append_left _ h), fun hroot ↦ ?_⟩
    exact hlast h (List.mem_singleton.mpr hroot)
  · rintro ⟨hreach, hroot⟩
    rcases List.mem_append.mp ((hmem template).mpr hreach) with h | h
    · exact h
    · exact absurd (List.mem_singleton.mp h) hroot

/-- Without cycles no template of the order depends on a later one, and none depends on the root. -/
theorem pairwise_expansionOrder (hacyclic : Acyclic depsOf) :
    (expansionOrder depsOf root ++ [root]).Pairwise fun a b ↦ b ∉ successors depsOf a := by
  refine (expansionOrder_walk depsOf root).pairwise ?_
  rw [leads_successors]
  exact hacyclic

/-- Without cycles no template depends on itself. -/
theorem not_mem_successors_self (hacyclic : Acyclic depsOf) (template : TemplateId) :
    template ∉ successors depsOf template :=
  fun h ↦ hacyclic template (.single (mem_successors.mp h))

/-- The walk ends on every graph. Its order contains what the root reaches and not the root, each template once, and
without cycles a template comes after all it depends on. -/
theorem expansionOrder_exact (depsOf : List (TemplateId × TemplateId)) (root : TemplateId) :
    (∃ order, PostOrder (successors depsOf) [] [] [root] order ∧ expansionOrder depsOf root = order.dropLast) ∧
    (expansionOrder depsOf root).Nodup ∧
    (∀ template, template ∈ expansionOrder depsOf root ↔ Reach depsOf root template ∧ template ≠ root) ∧
    (Acyclic depsOf → ∀ before template after, expansionOrder depsOf root = before ++ template :: after →
      ∀ dep ∈ successors depsOf template, dep ∈ before) := by
  refine ⟨⟨_, expansionOrder_walk depsOf root, by simp⟩, nodup_expansionOrder, fun _ ↦ mem_expansionOrder, ?_⟩
  intro hacyclic before template after hsplit dep hdep
  have hpairwise : (expansionOrder depsOf root ++ [root]).Pairwise fun a b ↦ b ∉ successors depsOf a :=
    pairwise_expansionOrder hacyclic
  have htemplate := mem_expansionOrder.mp (hsplit ▸ List.mem_append_right before List.mem_cons_self)
  have hmem : dep ∈ before ++ template :: (after ++ [root]) := by
    have hreach : Reach depsOf root dep := htemplate.1.tail (mem_successors.mp hdep)
    rw [← List.cons_append, ← List.append_assoc, ← hsplit]
    by_cases hroot : dep = root
    · simp [hroot]
    · exact List.mem_append_left _ (mem_expansionOrder.mpr ⟨hreach, hroot⟩)
  rw [hsplit, List.append_assoc, List.cons_append] at hpairwise
  exact mem_before_of_pairwise hpairwise (not_mem_successors_self hacyclic template) hdep hmem

theorem expansionOrder_exact_diamond : Acyclic [(1, 2), (1, 3), (2, 4), (3, 4)] ∧
    expansionOrder [(1, 2), (1, 3), (2, 4), (3, 4)] 1 = [4, 2, 3] ∧
      ∀ dep ∈ successors [(1, 2), (1, 3), (2, 4), (3, 4)] 3, dep ∈ [4, 2] := by
  have hdiamond : Acyclic [(1, 2), (1, 3), (2, 4), (3, 4)] := .of_rank id (by decide)
  exact ⟨hdiamond, by decide, (expansionOrder_exact _ 1).2.2.2 hdiamond [4, 2] 3 [] (by decide)⟩

/-! ### The moments -/

/-- When a task of a template starts whose moment is given: so much later as the template says, or at the moment. -/
def ownStart (templates : List Template) (id : TemplateId) (anchor : Instant) : Instant :=
  ((optionsOf templates id).bind fun options ↦ options.startFor anchor).getD anchor

variable {templates : List Template} {rootStart : Instant}

/-- The moments are passed on from the root, and then by one template after another, backwards. -/
theorem prefillAnchors_eq : prefillAnchors templates root rootStart =
    (expansionOrder (templateEdges templates) root).reverse.foldl
      (relay (successors (templateEdges templates)) (ownStart templates) rootStart)
      (offer (successors (templateEdges templates)) (fun _ ↦ none) root rootStart) := rfl

/-- When a task of a template starts if the root is stamped out with a task starting at `rootStart`. -/
def startIn (templates : List Template) (root : TemplateId) (rootStart : Instant) (id : TemplateId) : Instant :=
  if id = root then rootStart
  else ownStart templates id ((prefillAnchors templates root rootStart id).getD rootStart)

/-- What takes part: the root and the templates of the order. -/
theorem mem_root_cons_order {id : TemplateId} :
    id ∈ root :: (expansionOrder depsOf root).reverse ↔ Reach depsOf root id := by
  rw [List.mem_cons, List.mem_reverse, mem_expansionOrder]
  constructor
  · rintro (rfl | h)
    · exact .refl
    · exact h.1
  · intro h
    by_cases hroot : id = root
    · exact .inl hroot
    · exact .inr ⟨h, hroot⟩

/-- Backwards no template leads to one before it. -/
theorem pairwise_root_cons_order (root : TemplateId) (hacyclic : Acyclic depsOf) :
    (root :: (expansionOrder depsOf root).reverse).Pairwise fun a b ↦ a ∉ successors depsOf b := by
  have hpairwise : (expansionOrder depsOf root ++ [root]).Pairwise fun a b ↦ b ∉ successors depsOf a :=
    pairwise_expansionOrder hacyclic
  have hreverse := List.pairwise_reverse.mpr hpairwise
  rwa [List.reverse_append, List.reverse_singleton, List.singleton_append] at hreverse

/-- What a template needs is handed down in the order: by the root or an earlier one, and never back. -/
theorem holdsLeast_prefillAnchors (root : TemplateId) (rootStart : Instant)
    (hacyclic : Acyclic (templateEdges templates)) :
    HoldsLeast (successors (templateEdges templates)) (startIn templates root rootStart)
      {p | p ∈ root :: (expansionOrder (templateEdges templates) root).reverse}
      (prefillAnchors templates root rootStart) := by
  obtain ⟨hroot, hwithin⟩ := List.pairwise_cons.mp (pairwise_root_cons_order root hacyclic)
  have hnone : HoldsLeast (successors (templateEdges templates)) (fun _ ↦ rootStart) ∅ fun _ ↦ none := holdsLeast_empty
  have hvalue : ∀ p ∈ (insert root ∅ : Set TemplateId), valueOf (ownStart templates) root rootStart
      (offer (successors (templateEdges templates)) (fun _ ↦ none) root rootStart) p = rootStart := by
    intro p hp
    have hself : p = root := hp.resolve_right (Set.notMem_empty _)
    exact if_pos hself
  have hstart := (hnone.offer root).congr hvalue
  have hpass := holdsLeast_foldl_relay (expansionOrder (templateEdges templates) root).reverse hstart
    (fun hmem ↦ (mem_expansionOrder.mp (List.mem_reverse.mp hmem)).2 rfl)
    (fun p _ ↦ not_mem_successors_self hacyclic p)
    (fun p hp q hq ↦ by
      have hself : q = root := hq.resolve_right (Set.notMem_empty _)
      exact hself ▸ hroot p hp)
    hwithin
    (fun p hp ↦ by
      obtain ⟨hreach, hne⟩ := mem_expansionOrder.mp (List.mem_reverse.mp hp)
      obtain ⟨q, hq, hedge⟩ := (ReflTransGen.cases_tail hreach).resolve_left hne
      refine ⟨q, ?_, mem_successors.mpr hedge⟩
      rcases List.mem_cons.mp (mem_root_cons_order.mpr hq) with hself | hmem
      · exact .inl (.inl hself)
      · exact .inr hmem)
  have hsources : {p | p ∈ root :: (expansionOrder (templateEdges templates) root).reverse} =
      insert root ∅ ∪ {p | p ∈ (expansionOrder (templateEdges templates) root).reverse} := by
    ext p
    simp
  rw [hsources, prefillAnchors_eq]
  exact hpass

/-! ### In which order dependencies are listed -/

/-- The same templates with their dependencies listed in another order. -/
def Relisted (templates templates' : List Template) : Prop :=
  List.Forall₂ (fun template template' ↦
    template' = { template with options := { template.options with depTemplates := template'.options.depTemplates } } ∧
      template'.options.depTemplates.Perm template.options.depTemplates) templates templates'

theorem Relisted.mem_templateEdges {templates' : List Template} (h : Relisted templates templates')
    (e : TemplateId × TemplateId) : e ∈ templateEdges templates' ↔ e ∈ templateEdges templates := by
  unfold templateEdges
  induction h with
  | nil => rfl
  | @cons template template' rest rest' hsame _ ih =>
    rw [List.flatMap_cons, List.flatMap_cons, List.mem_append, List.mem_append, ih]
    have hid : template'.id = template.id := by rw [hsame.1]
    simp only [List.mem_map, hsame.2.mem_iff, hid]

/-- Options that only differ in the order of the dependencies prefill the same start. -/
theorem Relisted.ownStart {templates' : List Template} (h : Relisted templates templates') (id : TemplateId) :
    ownStart templates' id = ownStart templates id := by
  funext anchor
  unfold Core.ownStart optionsOf
  congr 1
  induction h with
  | nil => rfl
  | @cons template template' rest rest' hsame _ ih =>
    have hid : template'.id = template.id := by rw [hsame.1]
    have hstart : template'.options.startPrefill = template.options.startPrefill := by
      rw [hsame.1]
    rw [List.find?_cons, List.find?_cons, hid]
    cases template.id == id with
    | true => simp [TemplateOptions.startFor, hstart]
    | false => exact ih

theorem Relisted.prefillAnchors {templates' : List Template} (h : Relisted templates templates')
    (hacyclic : Acyclic (templateEdges templates)) :
    prefillAnchors templates' root rootStart = prefillAnchors templates root rootStart := by
  have hedge : Edge (templateEdges templates') = Edge (templateEdges templates) := by
    funext a b
    exact propext (h.mem_templateEdges (a, b))
  have hnext : ∀ p d, d ∈ successors (templateEdges templates) p ↔ d ∈ successors (templateEdges templates') p := by
    intro p d
    rw [mem_successors, mem_successors, hedge]
  have hacyclic' : Acyclic (templateEdges templates') := hacyclic.mono fun e he ↦ (h.mem_templateEdges e).mp he
  have hsources : {p | p ∈ root :: (expansionOrder (templateEdges templates') root).reverse} =
      {p | p ∈ root :: (expansionOrder (templateEdges templates) root).reverse} := by
    ext p
    simp only [Set.mem_ofPred_eq, mem_root_cons_order, Reach, hedge]
  have hheld := holdsLeast_prefillAnchors root rootStart hacyclic
  have hheld' := (holdsLeast_prefillAnchors root rootStart hacyclic').congr_next hnext
  rw [hsources] at hheld'
  refine HoldsLeast.eq hheld (hheld'.congr fun p _ ↦ ?_) (fun p _ ↦ not_mem_successors_self hacyclic p)
    (pairwise_root_cons_order root hacyclic)
  rw [startIn, h.ownStart]
  rfl

/-- Without cycles each template is given the earliest start among those that need it, the root starting at the given
moment, and the order in which dependencies are listed makes no difference. -/
theorem prefillAnchors_earliest (templates : List Template) (root : TemplateId) (rootStart : Instant)
    (hacyclic : Acyclic (templateEdges templates)) :
    (∀ d, Reach (templateEdges templates) root d → d ≠ root →
      ∃ anchor, prefillAnchors templates root rootStart d = some anchor ∧
        IsLeast {start | ∃ p, Reach (templateEdges templates) root p ∧ Edge (templateEdges templates) p d ∧
          start = startIn templates root rootStart p} anchor) ∧
    ∀ templates', Relisted templates templates' →
      prefillAnchors templates' root rootStart = prefillAnchors templates root rootStart := by
  refine ⟨fun d hreach hroot ↦ ?_, fun templates' h ↦ h.prefillAnchors hacyclic⟩
  obtain ⟨q, hq, hedge⟩ := (ReflTransGen.cases_tail hreach).resolve_left hroot
  obtain ⟨anchor, hanchor, hleast⟩ := (holdsLeast_prefillAnchors root rootStart hacyclic).isSome
    (mem_root_cons_order.mpr hq) (mem_successors.mpr hedge)
  refine ⟨anchor, hanchor, ?_⟩
  have hneeded : {start | ∃ p, Reach (templateEdges templates) root p ∧ Edge (templateEdges templates) p d ∧
      start = startIn templates root rootStart p} = startIn templates root rootStart ''
        {p | p ∈ {p | p ∈ root :: (expansionOrder (templateEdges templates) root).reverse} ∧
          d ∈ successors (templateEdges templates) p} := by
    ext start
    simp only [Set.mem_ofPred_eq, Set.mem_image, mem_root_cons_order, mem_successors, and_assoc, eq_comm]
  rwa [hneeded]

/-- A template with a start prefill and dependencies, and nothing else. -/
def bareTemplate (id : TemplateId) (startPrefill : Option Offset) (depTemplates : List TemplateId) : Template where
  id := id
  shortId := .fromIndex id
  boardId := 1
  ownerUid := 1
  name := text "bare"
  draft := .default
  options := ⟨startPrefill, none, none, depTemplates⟩

/-- The fourth is needed by the second, which starts after five hours, and by the third, which starts at once. -/
def sharedNeed : List Template :=
  [bareTemplate 1 none [2, 3], bareTemplate 2 (some ⟨5, .hours⟩) [4], bareTemplate 3 none [4], bareTemplate 4 none []]

theorem prefillAnchors_earliest_shared : Acyclic (templateEdges sharedNeed) ∧
    prefillAnchors sharedNeed 1 100 4 = some 100 ∧
      IsLeast {start | ∃ p, Reach (templateEdges sharedNeed) 1 p ∧ Edge (templateEdges sharedNeed) p 4 ∧
        start = startIn sharedNeed 1 100 p} 100 := by
  have hacyclic : Acyclic (templateEdges sharedNeed) := .of_rank id (by decide)
  have htwo : Edge (templateEdges sharedNeed) 1 2 := List.mem_cons_self
  have hfour : Edge (templateEdges sharedNeed) 2 4 := List.mem_of_elem_eq_true (by decide)
  have hreach : Reach (templateEdges sharedNeed) 1 4 := .tail (.tail .refl htwo) hfour
  obtain ⟨anchor, hanchor, hleast⟩ := (prefillAnchors_earliest _ 1 100 hacyclic).1 4 hreach (by decide)
  have hvalue : prefillAnchors sharedNeed 1 100 4 = some 100 := by decide +kernel
  obtain rfl : anchor = 100 := Option.some.inj (hanchor.symm.trans hvalue)
  exact ⟨hacyclic, hvalue, hleast⟩

/-- The root's own prefill is not added to the moment its task starts. -/
theorem root_prefill_not_added : ¬ ∀ (templates : List Template) (root : TemplateId) (rootStart : Instant),
    Acyclic (templateEdges templates) → ∀ d, Reach (templateEdges templates) root d → d ≠ root →
      ∃ anchor, prefillAnchors templates root rootStart d = some anchor ∧
        IsLeast {start | ∃ p, Reach (templateEdges templates) root p ∧ Edge (templateEdges templates) p d ∧
          start = ownStart templates p
            (if p = root then rootStart else (prefillAnchors templates root rootStart p).getD rootStart)} anchor := by
  intro h
  have hacyclic : Acyclic (templateEdges [bareTemplate 1 (some ⟨1, .hours⟩) [2], bareTemplate 2 none []]) :=
    .of_rank id (by decide)
  have hedge : Edge (templateEdges [bareTemplate 1 (some ⟨1, .hours⟩) [2], bareTemplate 2 none []]) 1 2 :=
    List.mem_cons_self
  obtain ⟨anchor, hanchor, ⟨p, -, hp, hstart⟩, -⟩ := h _ 1 0 hacyclic 2 (.tail .refl hedge) (by decide)
  have hroot : p = 1 := congrArg Prod.fst (List.mem_singleton.mp hp)
  have hvalue : prefillAnchors [bareTemplate 1 (some ⟨1, .hours⟩) [2], bareTemplate 2 none []] 1 0 2 = some 0 := by
    decide +kernel
  have hlate : ownStart [bareTemplate 1 (some ⟨1, .hours⟩) [2], bareTemplate 2 none []] 1 0 = 3600 := by decide +kernel
  rw [hroot, if_pos rfl, hlate] at hstart
  have hzero : anchor = 0 := Option.some.inj (hanchor.symm.trans hvalue)
  exact absurd (hstart.symm.trans hzero) (by decide)

end Taskologic.Core
