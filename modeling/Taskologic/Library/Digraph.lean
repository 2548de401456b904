import Mathlib.Data.List.Basic
import Mathlib.Logic.Relation
import Mathlib.Tactic

/-!
# Directed graphs

A graph is a list of edges, and a vertex reaches another by following them. `Acyclic` says that no
vertex reaches itself by one edge or more. One more edge closes a cycle exactly when its end reaches
its start (`acyclic_insert_iff`); a graph stays acyclic when edges go away (`Acyclic.mono`), when two
graphs that share no vertex are put together (`Acyclic.union`), and when the vertices are renamed
(`acyclic_map_iff`).

`search` is the depth first search with a stack and the set of the vertices seen. It needs no more
turns than there are edges, plus one for each vertex on the stack, and answers exactly whether the
target can be reached (`search_eq_true_iff`). `Searches` is the same loop without a limit to its
turns; it ends on every graph, with the answer of `search` (`searches_search`).
-/

set_option autoImplicit false
set_option relaxedAutoImplicit false

namespace Taskologic.Library

open Relation

variable {α β : Type*}

/-- No vertex reaches itself. -/
def AcyclicRel (r : α → α → Prop) : Prop := ∀ a, ¬ TransGen r a a

/-- The edges of a list. -/
def Edge (edges : List (α × α)) (a b : α) : Prop := (a, b) ∈ edges

/-- Following any number of edges. -/
def Reach (edges : List (α × α)) : α → α → Prop := ReflTransGen (Edge edges)

/-- No vertex reaches itself by following one edge or more. -/
def Acyclic (edges : List (α × α)) : Prop := AcyclicRel (Edge edges)

variable {edges more : List (α × α)} {a b : α}

theorem acyclic_nil : Acyclic ([] : List (α × α)) := by
  intro a h
  obtain ⟨b, -, hedge⟩ := TransGen.tail'_iff.mp h
  cases hedge

/-- A graph whose edges all lead upwards has no cycle. -/
theorem Acyclic.of_rank (rank : α → ℕ) (h : ∀ e ∈ edges, rank e.1 < rank e.2) : Acyclic edges := by
  have hup : ∀ a b, TransGen (Edge edges) a b → rank a < rank b := by
    intro a b hpath
    induction hpath with
    | single hstep => exact h _ hstep
    | tail _ hstep ih => exact ih.trans (h _ hstep)
  exact fun a hcycle ↦ (hup a a hcycle).ne rfl

/-- Fewer edges, no new cycle. -/
theorem Acyclic.mono (h : Acyclic more) (hsub : ∀ e ∈ edges, e ∈ more) : Acyclic edges :=
  fun a hcycle ↦ h a (TransGen.mono (fun _ _ hedge ↦ hsub _ hedge) _ _ hcycle)

theorem Reach.mono (h : Reach edges a b) (hsub : ∀ e ∈ edges, e ∈ more) : Reach more a b :=
  ReflTransGen.mono (fun _ _ hedge ↦ hsub _ hedge) _ _ h

/-- A vertex no edge leads to is reached from itself alone. -/
theorem Reach.eq_of_source (h : Reach edges a b) (hsource : ∀ e ∈ edges, e.2 ≠ b) : a = b := by
  rcases ReflTransGen.cases_tail h with heq | ⟨c, -, hedge⟩
  · exact heq.symm
  · exact absurd rfl (hsource _ hedge)

/-- A vertex no edge leaves reaches itself alone. -/
theorem Reach.eq_of_sink (h : Reach edges a b) (hsink : ∀ e ∈ edges, e.1 ≠ a) : a = b := by
  rcases ReflTransGen.cases_head h with heq | ⟨c, hedge, -⟩
  · exact heq
  · exact absurd rfl (hsink _ hedge)

/-- The edges out of a vertex are no help in reaching it. -/
theorem reach_filter_out_iff [DecidableEq α] :
    Reach (edges.filter fun edge ↦ edge.1 != b) a b ↔ Reach edges a b := by
  constructor
  · exact fun h ↦ h.mono fun _ he ↦ List.mem_of_mem_filter he
  · intro h
    induction h using ReflTransGen.head_induction_on with
    | refl => exact .refl
    | @head first next hedge _ ih =>
      by_cases hself : first = b
      · rw [hself]
        exact .refl
      · exact .head (List.mem_filter.mpr ⟨hedge, bne_iff_ne.mpr hself⟩) ih

/-! ### One more edge -/

/-- What is reached with one more edge: the same, or by way of that edge. -/
theorem transGen_or {r : α → α → Prop} {x y : α}
    (h : TransGen (fun x y ↦ r x y ∨ (x = a ∧ y = b)) x y) :
    TransGen r x y ∨ (ReflTransGen r x a ∧ ReflTransGen r b y) := by
  induction h with
  | single hstep =>
    rcases hstep with hold | ⟨rfl, rfl⟩
    · exact .inl (.single hold)
    · exact .inr ⟨.refl, .refl⟩
  | tail _ hstep ih =>
    rcases hstep with hold | ⟨rfl, rfl⟩
    · rcases ih with hpath | ⟨hto, hfrom⟩
      · exact .inl (hpath.tail hold)
      · exact .inr ⟨hto, hfrom.tail hold⟩
    · rcases ih with hpath | ⟨hto, -⟩
      · exact .inr ⟨hpath.to_reflTransGen, .refl⟩
      · exact .inr ⟨hto, .refl⟩

/-- One more edge closes a cycle exactly when its end reaches its start. -/
theorem acyclic_insert_iff {whole : List (α × α)}
    (hwhole : ∀ e, e ∈ whole ↔ e ∈ edges ∨ e = (a, b)) :
    Acyclic whole ↔ Acyclic edges ∧ ¬ Reach edges b a := by
  have hedge : Edge whole = fun x y ↦ Edge edges x y ∨ (x = a ∧ y = b) := by
    funext x y
    simp [Edge, hwhole]
  constructor
  · intro h
    refine ⟨h.mono fun e he ↦ (hwhole e).mpr (.inl he), fun hreach ↦ h b ?_⟩
    have hreach' : Reach whole b a := hreach.mono fun e he ↦ (hwhole e).mpr (.inl he)
    exact TransGen.tail' hreach' ((hwhole (a, b)).mpr (.inr rfl))
  · rintro ⟨hacyclic, hreach⟩ x hcycle
    rw [hedge] at hcycle
    rcases transGen_or hcycle with hold | ⟨hto, hfrom⟩
    · exact hacyclic x hold
    · exact hreach (hfrom.trans hto)

/-- Edges out of a vertex to vertices that do not reach it. -/
theorem Acyclic.append_out (h : Acyclic edges) {targets : List α}
    (htargets : ∀ b ∈ targets, ¬ Reach edges b a) :
    Acyclic (edges ++ targets.map fun b ↦ (a, b)) := by
  induction targets generalizing edges with
  | nil => simpa using h
  | cons b rest ih =>
    have hone : ∀ e, e ∈ edges ++ [(a, b)] ↔ e ∈ edges ∨ e = (a, b) := by simp
    have hnext : Acyclic (edges ++ [(a, b)]) :=
      (acyclic_insert_iff hone).mpr ⟨h, htargets b (.head _)⟩
    rw [List.map_cons, List.append_cons]
    refine ih hnext fun c hc hreach ↦ ?_
    have hpath : ¬ TransGen (Edge edges) c a ∧ c ≠ a := by
      have hno := htargets c (.tail _ hc)
      rw [Reach, reflTransGen_iff_eq_or_transGen, not_or] at hno
      exact ⟨hno.2, fun hca ↦ hno.1 hca.symm⟩
    have hedge : Edge (edges ++ [(a, b)]) = fun x y ↦ Edge edges x y ∨ (x = a ∧ y = b) := by
      funext x y
      simp [Edge]
    rw [Reach, hedge, reflTransGen_iff_eq_or_transGen] at hreach
    rcases hreach with heq | htrans
    · exact hpath.2 heq.symm
    · rcases transGen_or htrans with hold | ⟨hto, -⟩
      · exact hpath.1 hold
      · exact htargets c (.tail _ hc) hto

/-! ### Two graphs and renaming -/

/-- Two graphs without a common vertex. -/
theorem Acyclic.union (p : α → Prop) (hfirst : Acyclic edges) (hsecond : Acyclic more)
    (hout : ∀ e ∈ edges, ¬ p e.1 ∧ ¬ p e.2) (hin : ∀ e ∈ more, p e.1 ∧ p e.2) :
    Acyclic (edges ++ more) := by
  intro a hcycle
  have hsplit : ∀ x y, TransGen (Edge (edges ++ more)) x y →
      (p x ∧ p y ∧ TransGen (Edge more) x y) ∨ (¬ p x ∧ ¬ p y ∧ TransGen (Edge edges) x y) := by
    intro x y h
    induction h with
    | single hstep =>
      rcases List.mem_append.mp hstep with hold | hnew
      · exact .inr ⟨(hout _ hold).1, (hout _ hold).2, .single hold⟩
      · exact .inl ⟨(hin _ hnew).1, (hin _ hnew).2, .single hnew⟩
    | tail _ hstep ih =>
      rcases List.mem_append.mp hstep with hold | hnew
      · rcases ih with ⟨-, hp, -⟩ | ⟨hx, -, hpath⟩
        · exact absurd hp (hout _ hold).1
        · exact .inr ⟨hx, (hout _ hold).2, hpath.tail hold⟩
      · rcases ih with ⟨hx, -, hpath⟩ | ⟨-, hp, -⟩
        · exact .inl ⟨hx, (hin _ hnew).2, hpath.tail hnew⟩
        · exact absurd (hin _ hnew).1 hp
  rcases hsplit a a hcycle with ⟨-, -, hpath⟩ | ⟨-, -, hpath⟩
  · exact hsecond a hpath
  · exact hfirst a hpath

/-- Renaming the vertices apart neither closes nor opens a cycle. -/
theorem acyclic_map_iff {f : α → β} (hf : Function.Injective f) :
    Acyclic (edges.map fun e ↦ (f e.1, f e.2)) ↔ Acyclic edges := by
  have hedge : ∀ x y, Edge (edges.map fun e ↦ (f e.1, f e.2)) x y ↔
      ∃ a b, f a = x ∧ f b = y ∧ Edge edges a b := by
    intro x y
    simp only [Edge, List.mem_map, Prod.mk.injEq, Prod.exists]
    exact ⟨fun ⟨a, b, h, hx, hy⟩ ↦ ⟨a, b, hx, hy, h⟩, fun ⟨a, b, hx, hy, h⟩ ↦ ⟨a, b, h, hx, hy⟩⟩
  constructor
  · intro h a hcycle
    refine h (f a) (TransGen.lift f (fun x y hxy ↦ (hedge _ _).mpr ⟨x, y, rfl, rfl, hxy⟩) _ _ hcycle)
  · intro h x hcycle
    have hback : ∀ x y, TransGen (Edge (edges.map fun e ↦ (f e.1, f e.2))) x y →
        ∃ a b, f a = x ∧ f b = y ∧ TransGen (Edge edges) a b := by
      intro x y hpath
      induction hpath with
      | single hstep =>
        obtain ⟨a, b, hx, hy, hab⟩ := (hedge _ _).mp hstep
        exact ⟨a, b, hx, hy, .single hab⟩
      | tail _ hstep ih =>
        obtain ⟨a, b, hx, hy, hab⟩ := ih
        obtain ⟨b', c, hy', hz, hbc⟩ := (hedge _ _).mp hstep
        exact ⟨a, c, hx, hz, hab.tail (hf (hy.trans hy'.symm) ▸ hbc)⟩
    obtain ⟨a, b, ha, hb, hpath⟩ := hback x x hcycle
    exact h a (hf (ha.trans hb.symm) ▸ hpath)

/-! ### Depth first search -/

variable [DecidableEq α]

/-- Where the edges out of a vertex lead, in order. -/
def successors (edges : List (α × α)) (a : α) : List α :=
  (edges.filter fun e ↦ e.1 == a).map Prod.snd

@[simp] theorem mem_successors : b ∈ successors edges a ↔ Edge edges a b := by
  simp [successors, Edge]

/-- Leading to a vertex is having an edge to it. -/
theorem leads_successors (edges : List (α × α)) : (fun a b ↦ b ∈ successors edges a) = Edge edges := by
  funext a b
  exact propext mem_successors

/-- Takes vertices off the stack until the target comes up or none is left; a vertex that was not
seen before puts its successors on the stack, the last of them on top. -/
def search (edges : List (α × α)) (target : α) : ℕ → List α → List α → Bool
  | _, _, [] => false
  | 0, _, _ :: _ => false
  | fuel + 1, seen, v :: stack =>
    if v = target then true
    else if v ∈ seen then search edges target fuel seen stack
    else search edges target fuel (v :: seen) ((successors edges v).reverse ++ stack)

/-- The edges whose start has not been seen. -/
def unseen (edges : List (α × α)) (seen : List α) : ℕ :=
  edges.countP fun e ↦ decide (e.1 ∉ seen)

/-- Seeing one more vertex leaves its successors to put on the stack. -/
theorem unseen_cons {seen : List α} {v : α} (hv : v ∉ seen) :
    unseen edges (v :: seen) + (successors edges v).length = unseen edges seen := by
  induction edges with
  | nil => rfl
  | cons e rest ih =>
    simp only [unseen, successors, List.countP_cons, List.filter_cons, List.length_map,
      List.mem_cons, not_or, decide_eq_true_eq, beq_iff_eq] at ih ⊢
    by_cases he : e.1 = v
    · simp only [he, not_true_eq_false, false_and, if_false, if_true, hv, not_false_eq_true,
        List.length_cons]
      omega
    · simp only [he, not_false_eq_true, true_and, if_false]
      omega

/-- Every vertex seen is not the target, and its successors were seen or are still to be. -/
def SearchInvariant (edges : List (α × α)) (target : α) (seen stack : List α) : Prop :=
  ∀ v ∈ seen, v ≠ target ∧ ∀ w, Edge edges v w → w ∈ seen ∨ w ∈ stack

/-- With turns enough, the search finds the target exactly when a vertex on the stack reaches it. -/
theorem search_iff {target : α} {fuel : ℕ} {seen stack : List α}
    (hfuel : stack.length + unseen edges seen ≤ fuel)
    (hseen : SearchInvariant edges target seen stack) :
    search edges target fuel seen stack = true ↔ ∃ v ∈ stack ++ seen, Reach edges v target := by
  induction fuel generalizing seen stack with
  | zero =>
    obtain rfl : stack = [] := List.length_eq_zero_iff.mp (by omega)
    simp only [search, List.nil_append, Bool.false_eq_true, false_iff, not_exists, not_and]
    intro v hv hreach
    induction hreach using ReflTransGen.head_induction_on with
    | refl => exact (hseen _ hv).1 rfl
    | head hedge _ ih => exact ih (((hseen _ hv).2 _ hedge).resolve_right (by simp))
  | succ fuel ih =>
    cases stack with
    | nil =>
      simp only [search, List.nil_append, Bool.false_eq_true, false_iff, not_exists, not_and]
      intro v hv hreach
      induction hreach using ReflTransGen.head_induction_on with
      | refl => exact (hseen _ hv).1 rfl
      | head hedge _ ih => exact ih (((hseen _ hv).2 _ hedge).resolve_right (by simp))
    | cons v stack =>
      rw [search]
      split_ifs with htarget hold
      · subst htarget
        exact iff_of_true rfl ⟨v, by simp, .refl⟩
      · rw [ih (by simp only [List.length_cons] at hfuel; omega)]
        · exact exists_congr fun w ↦ and_congr_left fun _ ↦ by
            simp only [List.mem_append, List.cons_append, List.mem_cons]
            exact ⟨.inr, fun h ↦ h.elim (fun hw ↦ hw ▸ .inr hold) id⟩
        · intro w hw
          refine ⟨(hseen w hw).1, fun x hx ↦ ?_⟩
          rcases (hseen w hw).2 x hx with hmem | hmem
          · exact .inl hmem
          · rcases List.mem_cons.mp hmem with rfl | hmem
            · exact .inl hold
            · exact .inr hmem
      · rw [ih]
        · constructor
          · rintro ⟨w, hw, hreach⟩
            simp only [List.append_assoc, List.mem_append, List.mem_reverse, mem_successors,
              List.mem_cons] at hw
            rcases hw with hedge | hstack | rfl | hseen'
            · exact ⟨v, by simp, .head hedge hreach⟩
            · exact ⟨w, by simp [hstack], hreach⟩
            · exact ⟨w, by simp, hreach⟩
            · exact ⟨w, by simp [hseen'], hreach⟩
          · rintro ⟨w, hw, hreach⟩
            refine ⟨w, ?_, hreach⟩
            simp only [List.cons_append, List.mem_cons, List.mem_append] at hw ⊢
            tauto
        · have hcount : _ = unseen edges seen := unseen_cons hold
          simp only [List.length_append, List.length_reverse, List.length_cons] at hfuel ⊢
          omega
        · intro w hw
          rcases List.mem_cons.mp hw with rfl | hw
          · exact ⟨htarget, fun x hx ↦ .inr (by simp [hx])⟩
          · refine ⟨(hseen w hw).1, fun x hx ↦ ?_⟩
            have := (hseen w hw).2 x hx
            simp only [List.mem_cons, List.mem_append] at this ⊢
            tauto

/-- A search from one vertex with as many turns as there are edges and one more. -/
theorem search_eq_true_iff {target : α} :
    search edges target (edges.length + 1) [] [a] = true ↔ Reach edges a target := by
  have hfuel : [a].length + unseen edges [] ≤ edges.length + 1 := by
    have := List.countP_le_length (p := fun e : α × α ↦ decide (e.1 ∉ ([] : List α))) (l := edges)
    simp only [List.length_singleton, unseen]
    omega
  rw [search_iff hfuel (fun v hv ↦ by cases hv)]
  simp

/-! ### The search as a loop -/

/-- The loop of the search, which goes on until the target comes up or the stack is empty, and what it
answers. -/
inductive Searches (edges : List (α × α)) (target : α) : List α → List α → Bool → Prop
  | exhausted {seen : List α} : Searches edges target seen [] false
  | found {seen stack : List α} : Searches edges target seen (target :: stack) true
  | skip {seen stack : List α} {v : α} {answer : Bool} (hother : v ≠ target) (hseen : v ∈ seen)
      (hrest : Searches edges target seen stack answer) : Searches edges target seen (v :: stack) answer
  | enter {seen stack : List α} {v : α} {answer : Bool} (hother : v ≠ target) (hnew : v ∉ seen)
      (hrest : Searches edges target (v :: seen) ((successors edges v).reverse ++ stack) answer) :
      Searches edges target seen (v :: stack) answer

/-- The loop has one answer. -/
theorem Searches.unique {target : α} {seen stack : List α} {first second : Bool}
    (hfirst : Searches edges target seen stack first) (hsecond : Searches edges target seen stack second) :
    first = second := by
  induction hfirst generalizing second with
  | exhausted =>
    cases hsecond
    rfl
  | found =>
    cases hsecond with
    | found => rfl
    | skip hother => exact absurd rfl hother
    | enter hother => exact absurd rfl hother
  | skip hother hseen _ ih =>
    cases hsecond with
    | found => exact absurd rfl hother
    | skip _ _ hrest => exact ih hrest
    | enter _ hnew => exact absurd hseen hnew
  | enter hother hnew _ ih =>
    cases hsecond with
    | found => exact absurd rfl hother
    | skip _ hseen => exact absurd hseen hnew
    | enter _ _ hrest => exact ih hrest

/-- The loop ends: each turn takes a vertex off the stack, and only one that was not seen puts its
successors there. -/
theorem searches_search {target : α} {fuel : ℕ} {seen stack : List α}
    (hfuel : stack.length + unseen edges seen ≤ fuel) :
    Searches edges target seen stack (search edges target fuel seen stack) := by
  induction fuel generalizing seen stack with
  | zero =>
    obtain rfl : stack = [] := List.length_eq_zero_iff.mp (by omega)
    exact .exhausted
  | succ fuel ih =>
    cases stack with
    | nil => exact .exhausted
    | cons v stack =>
      rw [List.length_cons] at hfuel
      rw [search]
      split_ifs with htarget hold
      · exact htarget ▸ .found
      · exact .skip htarget hold (ih (by omega))
      · have hcount : _ = unseen edges seen := unseen_cons hold
        refine .enter htarget hold (ih ?_)
        rw [List.length_append, List.length_reverse]
        omega

/-- A search from one vertex ends on every graph, cycles or not. -/
theorem searches_from (edges : List (α × α)) (target a : α) :
    Searches edges target [] [a] (search edges target (edges.length + 1) [] [a]) := by
  have hcount := List.countP_le_length (p := fun e : α × α ↦ decide (e.1 ∉ ([] : List α))) (l := edges)
  refine searches_search ?_
  rw [List.length_singleton, unseen]
  omega

end Taskologic.Library
