import Taskologic.Core.Ids
import Taskologic.Library.Digraph

/-!
# The dependency graph

A graph is given by its edges, each from a task to one it depends on. `firstCycle` looks at a proposed
list of dependencies of one task as they will be after the edit: the edges the task has go away, then the
proposed ones are put in one after another, and the first that would close a cycle is the answer.
A list passes exactly when nothing on it depends on the task (`firstCycle_eq_none_iff`), which for an
acyclic graph is exactly when it leaves the graph acyclic, and the searches end on every graph
(`firstCycle_exact`). Templates are checked by the same functions.
-/

set_option autoImplicit false
set_option relaxedAutoImplicit false

namespace Taskologic.Core

open Library

/-- Making `task` depend on `newDep` would create a cycle. -/
def createsCycle (depsOf : List (ℕ × ℕ)) (task newDep : ℕ) : Bool :=
  task == newDep || search depsOf task (depsOf.length + 1) [] [newDep]

/-- The loop of `firstCycle`. -/
def firstCycleFrom (graph : List (ℕ × ℕ)) (task : ℕ) : List ℕ → Option ℕ
  | [] => none
  | dep :: rest =>
    if createsCycle graph task dep then some dep
    else firstCycleFrom (graph ++ [(task, dep)]) task rest

/-- The edges of everybody else. -/
def edgesOfOthers (depsOf : List (ℕ × ℕ)) (task : ℕ) : List (ℕ × ℕ) :=
  depsOf.filter fun edge ↦ edge.1 != task

/-- The first dependency of a proposed list that closes a cycle. -/
def firstCycle (depsOf : List (ℕ × ℕ)) (task : ℕ) (proposed : List ℕ) : Option ℕ :=
  firstCycleFrom (edgesOfOthers depsOf task) task proposed

variable {depsOf graph : List (ℕ × ℕ)} {task newDep : ℕ} {proposed : List ℕ}

/-- The check is exact: one more edge closes a cycle exactly when its end reaches its start. -/
theorem createsCycle_iff : createsCycle depsOf task newDep = true ↔ Reach depsOf newDep task := by
  rw [createsCycle, Bool.or_eq_true, search_eq_true_iff, beq_iff_eq]
  constructor
  · rintro (rfl | hreach)
    · exact .refl
    · exact hreach
  · exact .inr

/-- A list that passes leaves the graph acyclic. -/
theorem acyclic_of_firstCycleFrom (hgraph : Acyclic graph)
    (h : firstCycleFrom graph task proposed = none) :
    Acyclic (graph ++ proposed.map fun dep ↦ (task, dep)) := by
  induction proposed generalizing graph with
  | nil => simpa using hgraph
  | cons dep rest ih =>
    rw [firstCycleFrom] at h
    split_ifs at h with hcycle
    rw [createsCycle_iff] at hcycle
    have hone : ∀ e, e ∈ graph ++ [(task, dep)] ↔ e ∈ graph ∨ e = (task, dep) := by simp
    rw [List.map_cons, List.append_cons]
    exact ih ((acyclic_insert_iff hone).mpr ⟨hgraph, hcycle⟩) h

/-- Dependencies that pass can take the place of those the task had. -/
theorem acyclic_of_firstCycle (hgraph : Acyclic depsOf)
    (h : firstCycle depsOf task proposed = none) :
    Acyclic (edgesOfOthers depsOf task ++ proposed.map fun dep ↦ (task, dep)) :=
  acyclic_of_firstCycleFrom (hgraph.mono fun _ he ↦ List.mem_of_mem_filter he) h

/-! ### When a list passes -/

/-- The edges a task has are no help in reaching it. -/
theorem reach_edgesOfOthers {a : ℕ} : Reach (edgesOfOthers depsOf task) a task ↔ Reach depsOf a task :=
  reach_filter_out_iff

theorem edgesOfOthers_append (dep : ℕ) :
    edgesOfOthers (graph ++ [(task, dep)]) task = edgesOfOthers graph task := by
  simp [edgesOfOthers]

theorem firstCycleFrom_eq_none_iff :
    firstCycleFrom graph task proposed = none ↔ ∀ dep ∈ proposed, ¬ Reach graph dep task := by
  induction proposed generalizing graph with
  | nil => simp [firstCycleFrom]
  | cons dep rest ih =>
    have hsame (other : ℕ) : Reach (graph ++ [(task, dep)]) other task ↔ Reach graph other task := by
      rw [← reach_edgesOfOthers, edgesOfOthers_append, reach_edgesOfOthers]
    rw [firstCycleFrom, List.forall_mem_cons]
    split_ifs with hcycle <;> rw [createsCycle_iff] at hcycle
    · exact iff_of_false (by simp) fun h ↦ h.1 hcycle
    · simp only [ih, hsame, hcycle, not_false_eq_true, true_and]

/-- The check is exact: a list passes exactly when nothing on it depends on the task. -/
theorem firstCycle_eq_none_iff :
    firstCycle depsOf task proposed = none ↔ ∀ dep ∈ proposed, ¬ Reach depsOf dep task := by
  rw [firstCycle, firstCycleFrom_eq_none_iff]
  exact forall₂_congr fun dep _ ↦ not_congr reach_edgesOfOthers

/-! ### What the check decides -/

/-- A dependency that is refused is on the list and depends on the task. -/
theorem reach_of_firstCycleFrom {dep : ℕ} (h : firstCycleFrom graph task proposed = some dep) :
    dep ∈ proposed ∧ Reach graph dep task := by
  induction proposed generalizing graph with
  | nil => cases h
  | cons first rest ih =>
    rw [firstCycleFrom] at h
    split_ifs at h with hcycle
    · cases h
      exact ⟨List.mem_cons_self, createsCycle_iff.mp hcycle⟩
    · obtain ⟨hmem, hreach⟩ := ih h
      rw [← reach_edgesOfOthers, edgesOfOthers_append, reach_edgesOfOthers] at hreach
      exact ⟨List.mem_cons_of_mem _ hmem, hreach⟩

/-- Edges put in for a task that lead to a cycle lead to a task that depends on it. -/
theorem firstCycle_eq_none_of_acyclic
    (h : Acyclic (edgesOfOthers depsOf task ++ proposed.map fun dep ↦ (task, dep))) :
    firstCycle depsOf task proposed = none := by
  refine firstCycle_eq_none_iff.mpr fun dep hdep hreach ↦ h dep ?_
  have hback : Reach (edgesOfOthers depsOf task ++ proposed.map fun dep ↦ (task, dep)) dep task :=
    (reach_edgesOfOthers.mpr hreach).mono fun _ he ↦ List.mem_append_left _ he
  have hedge : (task, dep) ∈ edgesOfOthers depsOf task ++ proposed.map fun dep ↦ (task, dep) :=
    List.mem_append_right _ (List.mem_map_of_mem hdep)
  exact .tail' hback hedge

/-- The searches end on every graph. For an acyclic one a list is refused exactly when the edges of the task
cannot be replaced by it without a cycle, and what is named then is a dependency of the list that leads back to
the task. -/
theorem firstCycle_exact (depsOf : List (ℕ × ℕ)) (task : ℕ) (proposed : List ℕ) :
    (∀ graph newDep, ∃ answer, Searches graph task [] [newDep] answer ∧
      createsCycle graph task newDep = (task == newDep || answer)) ∧
    (Acyclic depsOf →
      (firstCycle depsOf task proposed = none ↔
        Acyclic (edgesOfOthers depsOf task ++ proposed.map fun dep ↦ (task, dep))) ∧
      ∀ dep, firstCycle depsOf task proposed = some dep → dep ∈ proposed ∧ Reach depsOf dep task) := by
  refine ⟨fun graph newDep ↦ ⟨_, searches_from graph task newDep, rfl⟩, fun hgraph ↦ ⟨⟨?_, ?_⟩, ?_⟩⟩
  · exact acyclic_of_firstCycle hgraph
  · exact firstCycle_eq_none_of_acyclic
  · intro dep h
    obtain ⟨hmem, hreach⟩ := reach_of_firstCycleFrom h
    exact ⟨hmem, reach_edgesOfOthers.mp hreach⟩

theorem firstCycle_exact_chain : Acyclic [(1, 2), (2, 3)] ∧
    firstCycle [(1, 2), (2, 3)] 3 [4, 1] = some 1 ∧ Reach [(1, 2), (2, 3)] 1 3 ∧
      Acyclic (edgesOfOthers [(1, 2), (2, 3)] 2 ++ [4, 3].map fun dep ↦ (2, dep)) := by
  have hchain : Acyclic [(1, 2), (2, 3)] := .of_rank id (by decide)
  exact ⟨hchain, by decide, (((firstCycle_exact _ 3 [4, 1]).2 hchain).2 1 (by decide)).2,
    ((firstCycle_exact _ 2 [4, 3]).2 hchain).1.mp (by decide)⟩

end Taskologic.Core
