import Taskologic.Library.Digraph

/-!
# Post-order walks

A walk visits some vertices one after another. A vertex that is finished, or that the walk is still inside of, is
passed over; any other is entered, what it leads to is visited first, and then it is emitted. `PostOrder` is such a
walk with the vertices it emits.

Each vertex is emitted once (`PostOrder.nodup`), and a walk from one vertex emits exactly what the vertex reaches,
itself last (`PostOrder.of_root`). In a graph without cycles no vertex leads to one that is emitted later
(`PostOrder.pairwise`), so each comes after everything it leads to (`mem_before_of_pairwise`).
-/

set_option autoImplicit false
set_option relaxedAutoImplicit false

namespace Taskologic.Library

open Relation

variable {α : Type*} {next : α → List α}

/-- The vertices that visiting `vertices` one after another emits, inside of the vertices of `stack` and with those of
`finished` emitted before. -/
inductive PostOrder (next : α → List α) : (stack finished vertices order : List α) → Prop
  | done {stack finished : List α} : PostOrder next stack finished [] []
  | skip {stack finished : List α} {v : α} {rest order : List α} (hseen : v ∈ finished ∨ v ∈ stack)
      (hrest : PostOrder next stack finished rest order) : PostOrder next stack finished (v :: rest) order
  | enter {stack finished : List α} {v : α} {rest inner later : List α} (hunfinished : v ∉ finished)
      (hout : v ∉ stack) (hinner : PostOrder next (v :: stack) finished (next v) inner)
      (hrest : PostOrder next stack ((inner ++ [v]).reverse ++ finished) rest later) :
      PostOrder next stack finished (v :: rest) (inner ++ v :: later)

namespace PostOrder

variable {stack finished vertices order : List α}

/-- What is emitted was not emitted before, and the walk was not inside of it. -/
theorem fresh (h : PostOrder next stack finished vertices order) : ∀ w ∈ order, w ∉ finished ∧ w ∉ stack := by
  induction h with
  | done => simp
  | skip _ _ ih => exact ih
  | @enter stack finished v rest inner later hunfinished hout _ _ ihInner ihRest =>
    intro w hw
    rcases List.mem_append.mp hw with hw | hw
    · have hinner := ihInner w hw
      exact ⟨hinner.1, fun hstack ↦ hinner.2 (List.mem_cons_of_mem _ hstack)⟩
    · rcases List.mem_cons.mp hw with rfl | hw
      · exact ⟨hunfinished, hout⟩
      · have hlater := ihRest w hw
        exact ⟨fun hmem ↦ hlater.1 (List.mem_append_right _ hmem), hlater.2⟩

/-- What is emitted once a vertex was left is neither that vertex nor what was emitted inside of it. -/
theorem fresh_later {v : α} {inner rest later : List α}
    (h : PostOrder next stack ((inner ++ [v]).reverse ++ finished) rest later) {w : α} (hw : w ∈ later) :
    w ∉ inner ∧ w ≠ v ∧ w ∉ finished ∧ w ∉ stack := by
  obtain ⟨hfinished, hstack⟩ := h.fresh w hw
  simp only [List.mem_append, List.mem_reverse, List.mem_singleton, not_or] at hfinished
  exact ⟨hfinished.1.1, hfinished.1.2, hfinished.2, hstack⟩

theorem nodup (h : PostOrder next stack finished vertices order) : order.Nodup := by
  induction h with
  | done => exact List.nodup_nil
  | skip _ _ ih => exact ih
  | @enter stack finished v rest inner later _ _ hinner hrest ihInner ihRest =>
    have hself : v ∉ later := fun hv ↦ (hrest.fresh_later hv).2.1 rfl
    refine List.nodup_append.mpr ⟨ihInner, List.nodup_cons.mpr ⟨hself, ihRest⟩, fun a ha b hb hab ↦ ?_⟩
    subst hab
    rcases List.mem_cons.mp hb with rfl | hb
    · exact (hinner.fresh a ha).2 List.mem_cons_self
    · exact (hrest.fresh_later hb).1 ha

/-- Only what the vertices reach is emitted. -/
theorem reached (h : PostOrder next stack finished vertices order) :
    ∀ w ∈ order, ∃ v ∈ vertices, ReflTransGen (fun a b ↦ b ∈ next a) v w := by
  induction h with
  | done => simp
  | skip _ _ ih =>
    intro w hw
    obtain ⟨v, hv, hreach⟩ := ih w hw
    exact ⟨v, List.mem_cons_of_mem _ hv, hreach⟩
  | @enter stack finished v rest inner later _ _ _ _ ihInner ihRest =>
    intro w hw
    rcases List.mem_append.mp hw with hw | hw
    · obtain ⟨x, hx, hreach⟩ := ihInner w hw
      exact ⟨v, List.mem_cons_self, .head hx hreach⟩
    · rcases List.mem_cons.mp hw with rfl | hw
      · exact ⟨w, List.mem_cons_self, .refl⟩
      · obtain ⟨x, hx, hreach⟩ := ihRest w hw
        exact ⟨x, List.mem_cons_of_mem _ hx, hreach⟩

/-- Each of the vertices is emitted, unless the walk passes over it. -/
theorem covers (h : PostOrder next stack finished vertices order) :
    ∀ v ∈ vertices, v ∈ order ∨ v ∈ finished ∨ v ∈ stack := by
  induction h with
  | done => simp
  | @skip stack finished v rest order hseen _ ih =>
    intro w hw
    rcases List.mem_cons.mp hw with rfl | hw
    · exact .inr hseen
    · exact ih w hw
  | @enter stack finished v rest inner later _ _ _ _ _ ihRest =>
    intro w hw
    rcases List.mem_cons.mp hw with rfl | hw
    · exact .inl (by simp)
    · have hlater := ihRest w hw
      simp only [List.mem_append, List.mem_reverse, List.mem_cons, List.not_mem_nil, or_false] at hlater ⊢
      tauto

/-- What an emitted vertex leads to is emitted too, unless the walk passes over it. -/
theorem closed (h : PostOrder next stack finished vertices order) :
    ∀ w ∈ order, ∀ x ∈ next w, x ∈ order ∨ x ∈ finished ∨ x ∈ stack := by
  induction h with
  | done => simp
  | skip _ _ ih => exact ih
  | @enter stack finished v rest inner later _ _ hinner _ ihInner ihRest =>
    intro w hw x hx
    have hinside : x ∈ inner ∨ x ∈ finished ∨ x ∈ v :: stack → x ∈ inner ++ v :: later ∨ x ∈ finished ∨ x ∈ stack := by
      simp only [List.mem_append, List.mem_cons]
      tauto
    rcases List.mem_append.mp hw with hw | hw
    · exact hinside (ihInner w hw x hx)
    · rcases List.mem_cons.mp hw with rfl | hw
      · exact hinside (hinner.covers x hx)
      · have hlater := ihRest w hw x hx
        simp only [List.mem_append, List.mem_reverse, List.mem_cons, List.not_mem_nil, or_false] at hlater ⊢
        tauto

/-- Without cycles, no vertex leads to one that is emitted later. -/
theorem pairwise (hacyclic : AcyclicRel fun a b ↦ b ∈ next a) (h : PostOrder next stack finished vertices order) :
    order.Pairwise fun a b ↦ b ∉ next a := by
  induction h with
  | done => exact .nil
  | skip _ _ ih => exact ih
  | @enter stack finished v rest inner later _ _ hinner hrest ihInner ihRest =>
    -- What is emitted later is none of what the walk knew when it was inside of `v`.
    have hknown : ∀ b ∈ later, ¬ (b ∈ inner ∨ b ∈ finished ∨ b ∈ v :: stack) := by
      intro b hb
      obtain ⟨hinner, hself, hfinished, hstack⟩ := hrest.fresh_later hb
      simp only [List.mem_cons, not_or]
      exact ⟨hinner, hfinished, hself, hstack⟩
    refine List.pairwise_append.mpr ⟨ihInner, List.pairwise_cons.mpr ⟨fun b hb hnext ↦ ?_, ihRest⟩, ?_⟩
    · exact hknown b hb (hinner.covers b hnext)
    · intro a ha b hb hnext
      rcases List.mem_cons.mp hb with rfl | hb
      · obtain ⟨x, hx, hreach⟩ := hinner.reached a ha
        exact hacyclic b (.head' hx (hreach.tail hnext))
      · exact hknown b hb (hinner.closed a ha b hnext)

/-- A vertex first, the others after it. -/
theorem cons {v : α} {rest first later : List α} (hfirst : PostOrder next stack finished [v] first)
    (hrest : PostOrder next stack (first.reverse ++ finished) rest later) :
    PostOrder next stack finished (v :: rest) (first ++ later) := by
  cases hfirst with
  | skip hseen hnone =>
    cases hnone
    exact .skip hseen hrest
  | enter hunfinished hout hinner hnone =>
    cases hnone
    rw [List.append_assoc, List.singleton_append]
    exact .enter hunfinished hout hinner hrest

/-- A walk from one vertex emits what the vertex reaches, itself last. -/
theorem of_root {root : α} (h : PostOrder next [] [] [root] order) :
    ∃ inner, order = inner ++ [root] ∧ ∀ w, w ∈ order ↔ ReflTransGen (fun a b ↦ b ∈ next a) root w := by
  have hroot : root ∈ order := (h.covers root (by simp)).resolve_right (by simp)
  have hmem : ∀ w, w ∈ order ↔ ReflTransGen (fun a b ↦ b ∈ next a) root w := by
    intro w
    constructor
    · intro hw
      obtain ⟨v, hv, hreach⟩ := h.reached w hw
      exact List.mem_singleton.mp hv ▸ hreach
    · intro hreach
      induction hreach with
      | refl => exact hroot
      | tail _ hnext ih => exact (h.closed _ ih _ hnext).resolve_right (by simp)
  cases h with
  | skip hseen => exact absurd hseen (by simp)
  | enter _ _ hinner hrest =>
    cases hrest
    exact ⟨_, rfl, hmem⟩

end PostOrder

/-- In a list that contains what a vertex leads to, where no vertex leads to a later one or to itself, the vertex comes
after everything it leads to. -/
theorem mem_before_of_pairwise {before after : List α} {w x : α}
    (hpairwise : (before ++ w :: after).Pairwise fun a b ↦ b ∉ next a) (hself : w ∉ next w) (hx : x ∈ next w)
    (hmem : x ∈ before ++ w :: after) : x ∈ before := by
  rcases List.mem_append.mp hmem with hbefore | hrest
  · exact hbefore
  · rcases List.mem_cons.mp hrest with rfl | hafter
    · exact absurd hx hself
    · have htail := (List.pairwise_append.mp hpairwise).2.1
      exact absurd hx ((List.pairwise_cons.mp htail).1 x hafter)

end Taskologic.Library
