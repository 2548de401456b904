import Taskologic.Library.Digraph
import Taskologic.Library.Table

/-!
# Graphs that stay in place

A node has a number, a place and the numbers of the nodes it depends on; numbers are handed out once. A table of
nodes is `Local` when dependencies stay in one place and close no cycle. It stays so when nodes go away
(`Local.sublist`). A new node keeps it local exactly when its dependencies are in its place (`Local.add_iff`), and
new dependencies of a node exactly when they are in its place and none of them depends on the node
(`Local.replace_iff`).
-/

set_option autoImplicit false
set_option relaxedAutoImplicit false

namespace Taskologic.Library

structure Node (β : Type*) where
  id : ℕ
  place : β
  deps : List ℕ

variable {β : Type*} {nodes some : List (Node β)} {node old : Node β} {next : ℕ} {deps : List ℕ}

/-- Every dependency as an edge. -/
def edgesOf (nodes : List (Node β)) : List (ℕ × ℕ) :=
  nodes.flatMap fun node ↦ node.deps.map fun dep ↦ (node.id, dep)

theorem mem_edgesOf {a b : ℕ} : (a, b) ∈ edgesOf nodes ↔ ∃ node ∈ nodes, node.id = a ∧ b ∈ node.deps := by
  simp only [edgesOf, List.mem_flatMap, List.mem_map, Prod.mk.injEq]
  constructor
  · rintro ⟨node, hnode, dep, hdep, rfl, rfl⟩
    exact ⟨node, hnode, rfl, hdep⟩
  · rintro ⟨node, hnode, rfl, hdep⟩
    exact ⟨node, hnode, b, hdep, rfl, rfl⟩

/-- Numbers below `next` were handed out, dependencies are in one place, and there is no cycle. -/
structure Local (nodes : List (Node β)) (next : ℕ) : Prop where
  keyed : Keyed Node.id nodes
  idBelow : ∀ node ∈ nodes, node.id < next
  depBelow : ∀ node ∈ nodes, ∀ dep ∈ node.deps, dep < next
  samePlace : ∀ node ∈ nodes, ∀ other ∈ nodes, other.id ∈ node.deps → other.place = node.place
  acyclic : Acyclic (edgesOf nodes)

theorem Local.nil : Local ([] : List (Node β)) next where
  keyed := List.nodup_nil
  idBelow _ h := (List.not_mem_nil h).elim
  depBelow _ h := (List.not_mem_nil h).elim
  samePlace _ h := (List.not_mem_nil h).elim
  acyclic := acyclic_nil

/-- A dependency on a node that went away leads nowhere. -/
theorem Local.sublist (h : Local nodes next) (hsub : some.Sublist nodes) : Local some next where
  keyed := h.keyed.sublist (hsub.map Node.id)
  idBelow node hnode := h.idBelow node (hsub.subset hnode)
  depBelow node hnode := h.depBelow node (hsub.subset hnode)
  samePlace node hnode other hother := h.samePlace node (hsub.subset hnode) other (hsub.subset hother)
  acyclic := h.acyclic.mono fun _ hedge ↦ by
    obtain ⟨node, hnode, hid, hdep⟩ := mem_edgesOf.mp hedge
    exact mem_edgesOf.mpr ⟨node, hsub.subset hnode, hid, hdep⟩

/-- What a node reaches it reaches in its place. -/
theorem Local.reach_place [DecidableEq β] {place : β} {target : ℕ} (h : Local nodes next) (hnode : node ∈ nodes)
    (hplace : node.place = place) (hreach : Reach (edgesOf nodes) node.id target) :
    Reach (edgesOf (nodes.filter fun node ↦ node.place = place)) node.id target := by
  generalize hstart : node.id = start at hreach
  induction hreach using Relation.ReflTransGen.head_induction_on generalizing node with
  | refl => exact .refl
  | @head first next hedge hrest ih =>
    obtain ⟨same, hsame, hid, hdep⟩ := mem_edgesOf.mp hedge
    obtain rfl := List.inj_on_of_nodup_map h.keyed hsame hnode (hid.trans hstart.symm)
    have hstep : (first, next) ∈ edgesOf (nodes.filter fun node ↦ node.place = place) :=
      mem_edgesOf.mpr ⟨same, List.mem_filter.mpr ⟨hsame, decide_eq_true hplace⟩, hid, hdep⟩
    refine .head hstep ?_
    by_cases hthere : ∃ other ∈ nodes, other.id = next
    · obtain ⟨other, hother, rfl⟩ := hthere
      exact ih hother ((h.samePlace same hsame other hother hdep).trans hplace) rfl
    · have hsink : ∀ e ∈ edgesOf nodes, e.1 ≠ next := by
        rintro ⟨a, b⟩ he rfl
        obtain ⟨other, hother, hid, -⟩ := mem_edgesOf.mp he
        exact hthere ⟨other, hother, hid⟩
      rw [Reach.eq_of_sink hrest hsink]

/-! ### A new node -/

/-- Dependencies that are all there. -/
def Known (nodes : List (Node β)) (deps : List ℕ) : Prop := ∀ dep ∈ deps, ∃ node ∈ nodes, node.id = dep

/-- Dependencies that are all in one place. -/
def InPlace (nodes : List (Node β)) (place : β) (deps : List ℕ) : Prop :=
  ∀ node ∈ nodes, node.id ∈ deps → node.place = place

theorem Local.add_iff (h : Local nodes next) (hid : node.id = next) (hknown : Known nodes node.deps) :
    Local (nodes ++ [node]) (next + 1) ↔ InPlace nodes node.place node.deps := by
  have hbelow : ∀ dep ∈ node.deps, dep < next := by
    intro dep hdep
    obtain ⟨other, hother, rfl⟩ := hknown dep hdep
    exact h.idBelow other hother
  constructor
  · intro hlocal other hother hdep
    exact hlocal.samePlace node (by simp) other (List.mem_append_left _ hother) hdep
  · intro hplace
    refine ⟨?_, ?_, ?_, ?_, ?_⟩
    · rw [Keyed, List.map_append, List.nodup_append]
      refine ⟨h.keyed, List.nodup_singleton _, fun a ha b hb hab ↦ ?_⟩
      obtain ⟨other, hother, rfl⟩ := List.mem_map.mp ha
      have := h.idBelow other hother
      simp only [List.map_cons, List.map_nil, List.mem_singleton] at hb
      omega
    · simp only [List.mem_append, List.mem_singleton]
      rintro other (hother | rfl)
      · exact (h.idBelow other hother).trans (Nat.lt_succ_self _)
      · omega
    · simp only [List.mem_append, List.mem_singleton]
      rintro other (hother | rfl) dep hdep
      · exact (h.depBelow other hother dep hdep).trans (Nat.lt_succ_self _)
      · exact (hbelow dep hdep).trans (Nat.lt_succ_self _)
    · simp only [List.mem_append, List.mem_singleton]
      rintro first (hfirst | rfl) second (hsecond | rfl) hdep
      · exact h.samePlace first hfirst second hsecond hdep
      · have := h.depBelow first hfirst _ hdep
        omega
      · exact hplace second hsecond hdep
      · rfl
    · rw [edgesOf, List.flatMap_append, List.flatMap_singleton]
      refine h.acyclic.append_out fun dep hdep hreach ↦ ?_
      have hsource : ∀ e ∈ edgesOf nodes, e.2 ≠ node.id := by
        rintro ⟨a, b⟩ he
        obtain ⟨other, hother, -, hb⟩ := mem_edgesOf.mp he
        have := h.depBelow other hother b hb
        simp only
        omega
      have := hbelow dep hdep
      have := Reach.eq_of_source hreach hsource
      omega

/-! ### Other dependencies of a node -/

/-- The node, with other dependencies if it is the one. -/
def Node.redirect (id : ℕ) (deps : List ℕ) (node : Node β) : Node β :=
  if node.id = id then { node with deps } else node

@[simp] theorem Node.redirect_id (id : ℕ) (deps : List ℕ) (node : Node β) : (node.redirect id deps).id = node.id := by
  unfold redirect
  split_ifs <;> rfl

@[simp] theorem Node.redirect_place (id : ℕ) (deps : List ℕ) (node : Node β) :
    (node.redirect id deps).place = node.place := by
  unfold redirect
  split_ifs <;> rfl

theorem Node.mem_deps_redirect {id dep : ℕ} :
    dep ∈ (node.redirect id deps).deps ↔ if node.id = id then dep ∈ deps else dep ∈ node.deps := by
  unfold redirect
  split_ifs <;> rfl

/-- Gives a node other dependencies. -/
def setDeps (nodes : List (Node β)) (id : ℕ) (deps : List ℕ) : List (Node β) := nodes.map (Node.redirect id deps)

theorem mem_edgesOf_setDeps {a b id : ℕ} (hthere : ∃ node ∈ nodes, node.id = id) :
    (a, b) ∈ edgesOf (setDeps nodes id deps) ↔
      (a, b) ∈ (edgesOf nodes).filter (fun edge ↦ edge.1 != id) ++ deps.map fun dep ↦ (id, dep) := by
  have hafter : (a, b) ∈ edgesOf (setDeps nodes id deps) ↔
      ∃ node ∈ nodes, node.id = a ∧ b ∈ (node.redirect id deps).deps := by
    simp [mem_edgesOf, setDeps]
  simp only [hafter, mem_edgesOf, Node.mem_deps_redirect, List.mem_append, List.mem_filter, List.mem_map,
    Prod.mk.injEq, bne_iff_ne, ne_eq]
  constructor
  · rintro ⟨node, hnode, rfl, hdep⟩
    split_ifs at hdep with hsame
    · exact .inr ⟨b, hdep, hsame.symm, rfl⟩
    · exact .inl ⟨⟨node, hnode, rfl, hdep⟩, hsame⟩
  · rintro (⟨⟨node, hnode, rfl, hdep⟩, hother⟩ | ⟨dep, hdep, rfl, rfl⟩)
    · exact ⟨node, hnode, rfl, by rwa [if_neg hother]⟩
    · obtain ⟨node, hnode, hid⟩ := hthere
      exact ⟨node, hnode, hid, by rwa [if_pos hid]⟩

theorem Local.replace_iff (h : Local nodes next) (hold : old ∈ nodes) (hknown : Known nodes deps) :
    Local (setDeps nodes old.id deps) next ↔
      InPlace nodes old.place deps ∧ ∀ dep ∈ deps, ¬ Reach (edgesOf nodes) dep old.id := by
  have hthere : ∃ node ∈ nodes, node.id = old.id := ⟨old, hold, rfl⟩
  have hmem (node : Node β) (hnode : node ∈ nodes) : node.redirect old.id deps ∈ setDeps nodes old.id deps :=
    List.mem_map_of_mem hnode
  have hdeps (dep : ℕ) (hdep : dep ∈ deps) : dep ∈ (old.redirect old.id deps).deps := by
    rwa [Node.mem_deps_redirect, if_pos rfl]
  constructor
  · intro hlocal
    refine ⟨fun node hnode hdep ↦ ?_, fun dep hdep hreach ↦ ?_⟩
    · have hplace := hlocal.samePlace _ (hmem old hold) _ (hmem node hnode)
      simp only [Node.redirect_id, Node.redirect_place] at hplace
      exact hplace (hdeps node.id hdep)
    · have hback : Reach (edgesOf (setDeps nodes old.id deps)) dep old.id :=
        (reach_filter_out_iff.mpr hreach).mono fun e he ↦
          (mem_edgesOf_setDeps hthere).mpr (List.mem_append_left _ he)
      have hedge : (old.id, dep) ∈ edgesOf (setDeps nodes old.id deps) :=
        mem_edgesOf.mpr ⟨_, hmem old hold, Node.redirect_id .., hdeps dep hdep⟩
      exact hlocal.acyclic old.id (.head' hedge hback)
  · rintro ⟨hplace, hreach⟩
    refine ⟨?_, ?_, ?_, ?_, ?_⟩
    · have hids : (setDeps nodes old.id deps).map Node.id = nodes.map Node.id := by simp [setDeps, Function.comp_def]
      rw [Keyed, hids]
      exact h.keyed
    · refine List.forall_mem_map.mpr fun node hnode ↦ ?_
      rw [Node.redirect_id]
      exact h.idBelow node hnode
    · refine List.forall_mem_map.mpr fun node hnode dep hdep ↦ ?_
      rw [Node.mem_deps_redirect] at hdep
      split_ifs at hdep
      · obtain ⟨other, hother, rfl⟩ := hknown dep hdep
        exact h.idBelow other hother
      · exact h.depBelow node hnode dep hdep
    · refine List.forall_mem_map.mpr fun first hfirst ↦ List.forall_mem_map.mpr fun second hsecond hdep ↦ ?_
      rw [Node.redirect_id, Node.mem_deps_redirect] at hdep
      rw [Node.redirect_place, Node.redirect_place]
      split_ifs at hdep with hsame
      · obtain rfl := List.inj_on_of_nodup_map h.keyed hfirst hold hsame
        exact hplace second hsecond hdep
      · exact h.samePlace first hfirst second hsecond hdep
    · refine Acyclic.mono ?_ fun e he ↦ (mem_edgesOf_setDeps hthere).mp he
      refine (h.acyclic.mono fun _ he ↦ List.mem_of_mem_filter he).append_out fun dep hdep hback ↦ ?_
      exact hreach dep hdep (reach_filter_out_iff.mp hback)

/-! ### Nodes keep their place -/

/-- Numbers are not handed out again, and a node that was there before is where it was. -/
structure Placed (nodes : List (Node β)) (next : ℕ) (after : List (Node β)) (nextAfter : ℕ) : Prop where
  le : next ≤ nextAfter
  kept : ∀ node ∈ after, node.id < next → ∃ before ∈ nodes, before.id = node.id ∧ before.place = node.place

namespace Placed

variable {after later : List (Node β)} {nextAfter nextLater : ℕ}

theorem sublist (hsub : after.Sublist nodes) : Placed nodes next after next :=
  ⟨le_rfl, fun node hnode _ ↦ ⟨node, hsub.subset hnode, rfl, rfl⟩⟩

theorem trans (hone : Placed nodes next after nextAfter) (htwo : Placed after nextAfter later nextLater) :
    Placed nodes next later nextLater := by
  refine ⟨hone.le.trans htwo.le, fun node hnode hold ↦ ?_⟩
  obtain ⟨between, hbetween, hid, hplace⟩ := htwo.kept node hnode (hold.trans_le hone.le)
  obtain ⟨before, hbefore, hid', hplace'⟩ := hone.kept between hbetween (hid ▸ hold)
  exact ⟨before, hbefore, hid'.trans hid, hplace'.trans hplace⟩

theorem add (hid : node.id = next) : Placed nodes next (nodes ++ [node]) (next + 1) := by
  refine ⟨Nat.le_succ next, fun other hother hold ↦ ?_⟩
  rcases List.mem_append.mp hother with hmem | hmem
  · exact ⟨other, hmem, rfl, rfl⟩
  · rw [List.mem_singleton.mp hmem, hid] at hold
    exact (lt_irrefl _ hold).elim

theorem setDeps (id : ℕ) (deps : List ℕ) : Placed nodes next (setDeps nodes id deps) next :=
  ⟨le_rfl, List.forall_mem_map.mpr fun node hnode _ ↦
    ⟨node, hnode, (Node.redirect_id ..).symm, (Node.redirect_place ..).symm⟩⟩

end Placed

end Taskologic.Library
