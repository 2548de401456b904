import Taskologic.Library.Digraph
import Mathlib.Order.Bounds.Basic

/-!
# The least of what is handed down

Values are handed down the edges of a graph, and a vertex that is handed several keeps the least. `HoldsLeast` says
that each vertex holds the least of the values of the sources that lead to it. A source that hands down its value keeps
it so (`HoldsLeast.offer`).

Where the value of a vertex comes of what it holds, one pass is enough if no vertex leads to one that handed down
before it, and each was handed something when its turn comes (`holdsLeast_foldl_relay`). What is held in the end does not
depend on the order of the pass (`HoldsLeast.eq`).
-/

set_option autoImplicit false
set_option relaxedAutoImplicit false

namespace Taskologic.Library

variable {α β : Type*} [DecidableEq α] [LinearOrder β] {next : α → List α} {value : α → β} {sources : Set α}
  {held : α → Option β}

/-- A vertex hands a value down to those it leads to. -/
def offer (next : α → List α) (held : α → Option β) (p : α) (x : β) (d : α) : Option β :=
  if d ∈ next p then some ((held d).elim x fun old ↦ min old x) else held d

/-- Each vertex holds the least of the values of the sources that lead to it. -/
def HoldsLeast (next : α → List α) (value : α → β) (sources : Set α) (held : α → Option β) : Prop :=
  ∀ d, (held d = none ∧ ∀ p ∈ sources, d ∉ next p) ∨
    ∃ x, held d = some x ∧ IsLeast (value '' {p | p ∈ sources ∧ d ∈ next p}) x

omit [DecidableEq α] in
theorem HoldsLeast.congr {other : α → β} (h : HoldsLeast next value sources held)
    (hother : ∀ p ∈ sources, other p = value p) : HoldsLeast next other sources held := by
  intro d
  have himage : other '' {p | p ∈ sources ∧ d ∈ next p} = value '' {p | p ∈ sources ∧ d ∈ next p} :=
    Set.image_congr fun p hp ↦ hother p hp.1
  rw [himage]
  exact h d

omit [DecidableEq α] in
/-- Only where the vertices lead matters, not in which order. -/
theorem HoldsLeast.congr_next {other : α → List α} (h : HoldsLeast next value sources held)
    (hother : ∀ p d, d ∈ other p ↔ d ∈ next p) : HoldsLeast other value sources held := by
  intro d
  simp only [hother]
  exact h d

omit [DecidableEq α] in
/-- A vertex that a source leads to holds something. -/
theorem HoldsLeast.isSome (h : HoldsLeast next value sources held) {p d : α} (hp : p ∈ sources) (hd : d ∈ next p) :
    ∃ x, held d = some x ∧ IsLeast (value '' {p | p ∈ sources ∧ d ∈ next p}) x := by
  rcases h d with ⟨-, hnone⟩ | hsome
  · exact absurd hd (hnone p hp)
  · exact hsome

omit [DecidableEq α] in
theorem holdsLeast_empty : HoldsLeast next value ∅ fun _ ↦ none :=
  fun _ ↦ .inl ⟨rfl, fun _ hp ↦ absurd hp (Set.notMem_empty _)⟩

/-- One more source hands down its value. -/
theorem HoldsLeast.offer (h : HoldsLeast next value sources held) (p : α) :
    HoldsLeast next value (insert p sources) (offer next held p (value p)) := by
  intro d
  by_cases hd : d ∈ next p
  · right
    have hsources : {q | q ∈ insert p sources ∧ d ∈ next q} = insert p {q | q ∈ sources ∧ d ∈ next q} := by
      ext q
      simp only [Set.mem_ofPred_eq, Set.mem_insert_iff]
      constructor
      · rintro ⟨rfl | hq, hlead⟩
        · exact .inl rfl
        · exact .inr ⟨hq, hlead⟩
      · rintro (rfl | ⟨hq, hlead⟩)
        · exact ⟨.inl rfl, hd⟩
        · exact ⟨.inr hq, hlead⟩
    rw [hsources, Set.image_insert_eq]
    rcases h d with ⟨hnone, hsource⟩ | ⟨x, hx, hleast⟩
    · have hempty : {q | q ∈ sources ∧ d ∈ next q} = ∅ := Set.eq_empty_of_forall_notMem fun q hq ↦ hsource q hq.1 hq.2
      refine ⟨value p, by simp [Library.offer, hd, hnone], ?_⟩
      rw [hempty, Set.image_empty, insert_empty_eq]
      exact isLeast_singleton
    · refine ⟨min x (value p), by simp [Library.offer, hd, hx], ?_⟩
      rw [min_comm]
      exact hleast.insert (value p)
  · have hsources : {q | q ∈ insert p sources ∧ d ∈ next q} = {q | q ∈ sources ∧ d ∈ next q} := by
      ext q
      simp only [Set.mem_ofPred_eq, Set.mem_insert_iff]
      exact ⟨fun ⟨hq, hlead⟩ ↦ ⟨hq.resolve_left fun hsame ↦ hd (hsame ▸ hlead), hlead⟩,
        fun ⟨hq, hlead⟩ ↦ ⟨.inr hq, hlead⟩⟩
    have hheld : Library.offer next held p (value p) d = held d := if_neg hd
    rw [hsources, hheld]
    rcases h d with ⟨hnone, hsource⟩ | hsome
    · refine .inl ⟨hnone, fun q hq ↦ ?_⟩
      rcases hq with rfl | hq
      · exact hd
      · exact hsource q hq
    · exact .inr hsome

/-! ### Values that come of what is held -/

section Relay

variable {own : α → β → β} {root : α} {start : β}

/-- The value a vertex hands down: the root the start, any other what it makes of what it holds. -/
def valueOf (own : α → β → β) (root : α) (start : β) (held : α → Option β) (p : α) : β :=
  if p = root then start else own p ((held p).getD start)

omit [LinearOrder β] in
theorem valueOf_congr {other : α → Option β} {p : α} (h : p ≠ root → other p = held p) :
    valueOf own root start other p = valueOf own root start held p := by
  unfold valueOf
  split_ifs with hroot
  · rfl
  · rw [h hroot]

/-- A vertex takes what it holds, or the start, and hands down what it makes of it. -/
def relay (next : α → List α) (own : α → β → β) (start : β) (held : α → Option β) (p : α) : α → Option β :=
  let anchor := (held p).getD start
  offer next (fun other ↦ if other = p then some anchor else held other) p (own p anchor)

/-- A vertex that holds something only hands down. -/
theorem relay_eq {p : α} (hroot : p ≠ root) (hheld : held p ≠ none) :
    relay next own start held p = offer next held p (valueOf own root start held p) := by
  obtain ⟨x, hx⟩ := Option.ne_none_iff_exists'.mp hheld
  have hsame : (fun other ↦ if other = p then some ((held p).getD start) else held other) = held := by
    funext other
    split_ifs with hother
    · rw [hother, hx, Option.getD_some]
    · rfl
  rw [relay, hsame, valueOf, if_neg hroot]

/-- Passing on by one vertex, which leads neither to itself nor to a source. -/
theorem HoldsLeast.relay {p q : α} (h : HoldsLeast next (valueOf own root start held) sources held)
    (hroot : p ≠ root) (hq : q ∈ sources) (hlead : p ∈ next q) (hback : ∀ q ∈ insert p sources, q ∉ next p) :
    HoldsLeast next (valueOf own root start (relay next own start held p)) (insert p sources)
      (relay next own start held p) := by
  obtain ⟨x, hx, -⟩ := h.isSome hq hlead
  have hrelay : Library.relay next own start held p = Library.offer next held p (valueOf own root start held p) :=
    relay_eq hroot (by simp [hx])
  have hoffer : HoldsLeast next (valueOf own root start held) (insert p sources)
      (Library.offer next held p (valueOf own root start held p)) := h.offer p
  rw [hrelay]
  refine hoffer.congr fun q hq ↦ valueOf_congr fun _ ↦ ?_
  exact if_neg (hback q hq)

/-- Passing on in an order in which each vertex was led to by an earlier one, and leads to no earlier one. -/
theorem holdsLeast_foldl_relay (order : List α)
    (h : HoldsLeast next (valueOf own root start held) sources held)
    (hroot : root ∉ order) (hself : ∀ p ∈ order, p ∉ next p) (hback : ∀ p ∈ order, ∀ q ∈ sources, q ∉ next p)
    (hpairwise : order.Pairwise fun a b ↦ a ∉ next b)
    (hled : ∀ p ∈ order, ∃ q, (q ∈ sources ∨ q ∈ order) ∧ p ∈ next q) :
    HoldsLeast next (valueOf own root start (order.foldl (relay next own start) held)) (sources ∪ {p | p ∈ order})
      (order.foldl (relay next own start) held) := by
  induction order generalizing held sources with
  | nil => simpa using h
  | cons p order ih =>
    have hnext := List.pairwise_cons.mp hpairwise
    have hin : ∃ q ∈ sources, p ∈ next q := by
      obtain ⟨q, hq, hlead⟩ := hled p List.mem_cons_self
      rcases hq with hq | hq
      · exact ⟨q, hq, hlead⟩
      · rcases List.mem_cons.mp hq with rfl | hq
        · exact absurd hlead (hself q List.mem_cons_self)
        · exact absurd hlead (hnext.1 q hq)
    obtain ⟨q, hq, hlead⟩ := hin
    have hstep := h.relay (fun hsame ↦ hroot (hsame ▸ List.mem_cons_self)) hq hlead (p := p) fun r hr ↦ by
      rcases hr with rfl | hr
      · exact hself r List.mem_cons_self
      · exact hback p List.mem_cons_self r hr
    have hrest := ih hstep (fun hmem ↦ hroot (List.mem_cons_of_mem _ hmem))
      (fun r hr ↦ hself r (List.mem_cons_of_mem _ hr))
      (fun r hr s hs ↦ by
        rcases hs with rfl | hs
        · exact hnext.1 r hr
        · exact hback r (List.mem_cons_of_mem _ hr) s hs)
      hnext.2
      (fun r hr ↦ by
        obtain ⟨s, hs, hlead⟩ := hled r (List.mem_cons_of_mem _ hr)
        refine ⟨s, ?_, hlead⟩
        rcases hs with hs | hs
        · exact .inl (Set.mem_insert_of_mem _ hs)
        · rcases List.mem_cons.mp hs with rfl | hs
          · exact .inl (Set.mem_insert _ _)
          · exact .inr hs)
    have hsources : sources ∪ {r | r ∈ p :: order} = insert p sources ∪ {r | r ∈ order} := by
      ext r
      simp only [Set.mem_union, Set.mem_insert_iff, Set.mem_ofPred_eq, List.mem_cons]
      tauto
    rw [List.foldl_cons, hsources]
    exact hrest

omit [DecidableEq α] in
/-- Where the values agree of those that lead to a vertex, so does what it holds. -/
theorem HoldsLeast.eq_at {value' : α → β} {held' : α → Option β} {d : α} (h : HoldsLeast next value sources held)
    (h' : HoldsLeast next value' sources held') (hvalue : ∀ p ∈ sources, d ∈ next p → value' p = value p) :
    held' d = held d := by
  by_cases hled : ∃ p ∈ sources, d ∈ next p
  · obtain ⟨p, hp, hlead⟩ := hled
    obtain ⟨x, hx, hleast⟩ := h.isSome hp hlead
    obtain ⟨x', hx', hleast'⟩ := h'.isSome hp hlead
    have himage : value' '' {p | p ∈ sources ∧ d ∈ next p} = value '' {p | p ∈ sources ∧ d ∈ next p} :=
      Set.image_congr fun q hq ↦ hvalue q hq.1 hq.2
    rw [himage] at hleast'
    rw [hx, hx', hleast'.unique hleast]
  · have hnone : ∀ p ∈ sources, d ∉ next p := fun p hp hlead ↦ hled ⟨p, hp, hlead⟩
    rcases h d with hempty | ⟨x, -, ⟨p, hp, -⟩, -⟩
    · rcases h' d with hempty' | ⟨x, -, ⟨p, hp, -⟩, -⟩
      · rw [hempty.1, hempty'.1]
      · exact absurd hp.2 (hnone p hp.1)
    · exact absurd hp.2 (hnone p hp.1)

/-- What is held does not depend on how it came about. -/
theorem HoldsLeast.eq {held' : α → Option β} {order : List α}
    (h : HoldsLeast next (valueOf own root start held) {p | p ∈ order} held)
    (h' : HoldsLeast next (valueOf own root start held') {p | p ∈ order} held')
    (hself : ∀ p ∈ order, p ∉ next p) (hpairwise : order.Pairwise fun a b ↦ a ∉ next b) : held' = held := by
  -- The vertices of the order one after another: those that lead to one come before it.
  have hbefore : ∀ before after, before ++ after = order → ∀ p ∈ before, held' p = held p := by
    intro before
    induction before using List.reverseRecOn with
    | nil => simp
    | append_singleton before p ih =>
      intro after hsplit q hq
      have hearlier := ih (p :: after) (by rw [← hsplit, List.append_assoc, List.singleton_append])
      rcases List.mem_append.mp hq with hq | hq
      · exact hearlier q hq
      · obtain rfl := List.mem_singleton.mp hq
        refine h.eq_at h' fun r hr hlead ↦ valueOf_congr fun _ ↦ hearlier r ?_
        subst hsplit
        rw [List.append_assoc, List.singleton_append] at hr hpairwise hself
        rcases List.mem_append.mp hr with hr | hr
        · exact hr
        · rcases List.mem_cons.mp hr with rfl | hr
          · exact absurd hlead (hself r (by simp))
          · have htail := (List.pairwise_append.mp hpairwise).2.1
            exact absurd hlead ((List.pairwise_cons.mp htail).1 r hr)
  funext d
  exact h.eq_at h' fun p hp _ ↦ valueOf_congr fun _ ↦ hbefore order [] (List.append_nil _) p hp

end Relay

end Taskologic.Library
