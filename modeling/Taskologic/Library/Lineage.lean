import Mathlib.Tactic

/-!
# Lineages

Some things are made from others, one at a time. A lineage is the list of who was made from whom, the latest
first, and whatever has the same origin is kin. When nothing is made from the same twice and everything
made is new (`Grows`), each kinship has one tip at most: one member nothing was made from yet (`tip_unique`).
-/

set_option autoImplicit false
set_option relaxedAutoImplicit false

namespace Taskologic.Library

variable {α : Type*} [DecidableEq α]

/-- Pairs of a parent and what was made from it, the latest first. -/
abbrev Lineage (α : Type*) : Type _ := List (α × α)

namespace Lineage

/-- Something was made from it. -/
def MovedOn (lineage : Lineage α) (a : α) : Prop := ∃ pair ∈ lineage, pair.1 = a

instance (lineage : Lineage α) (a : α) : Decidable (lineage.MovedOn a) :=
  inferInstanceAs (Decidable (∃ pair ∈ lineage, pair.1 = a))

/-- It was made from something, or something was made from it. -/
def Names (lineage : Lineage α) (a : α) : Prop := ∃ pair ∈ lineage, pair.1 = a ∨ pair.2 = a

/-- Where it comes from in the end. -/
def origin : Lineage α → α → α
  | [], a => a
  | (parent, child) :: earlier, a => if a = child then origin earlier parent else origin earlier a

def Kin (lineage : Lineage α) (a b : α) : Prop := lineage.origin a = lineage.origin b

instance (lineage : Lineage α) (a b : α) : Decidable (lineage.Kin a b) :=
  inferInstanceAs (Decidable (_ = _))

/-- Nothing is made from the same twice, and what is made is new. -/
def Grows : Lineage α → Prop
  | [] => True
  | (parent, child) :: earlier =>
    ¬ MovedOn earlier parent ∧ ¬ Names earlier child ∧ child ≠ parent ∧ Grows earlier

variable {lineage : Lineage α} {parent child a b : α}

omit [DecidableEq α] in
theorem movedOn_cons : MovedOn ((parent, child) :: lineage) a ↔ parent = a ∨ lineage.MovedOn a := by
  simp [MovedOn]

omit [DecidableEq α] in
theorem names_cons :
    Names ((parent, child) :: lineage) a ↔ (parent = a ∨ child = a) ∨ lineage.Names a := by
  simp [Names]

omit [DecidableEq α] in
theorem MovedOn.names (h : lineage.MovedOn a) : lineage.Names a := by
  obtain ⟨pair, hpair, hfirst⟩ := h
  exact ⟨pair, hpair, .inl hfirst⟩

theorem origin_cons_self : origin ((parent, child) :: lineage) child = lineage.origin parent := if_pos rfl

theorem origin_cons_of_ne (h : a ≠ child) :
    origin ((parent, child) :: lineage) a = lineage.origin a := if_neg h

/-- What the lineage does not name comes from nothing else. -/
theorem origin_of_not_names (h : ¬ lineage.Names a) : lineage.origin a = a := by
  induction lineage with
  | nil => rfl
  | cons pair earlier ih =>
    obtain ⟨parent, child⟩ := pair
    rw [names_cons, not_or, not_or] at h
    rw [origin_cons_of_ne fun hsame ↦ h.1.2 hsame.symm]
    exact ih h.2

/-- An origin is the thing itself or named. -/
theorem origin_eq_or_names : lineage.origin a = a ∨ lineage.Names (lineage.origin a) := by
  induction lineage generalizing a with
  | nil => exact .inl rfl
  | cons pair earlier ih =>
    obtain ⟨parent, child⟩ := pair
    by_cases hchild : a = child
    · subst hchild
      rw [origin_cons_self, names_cons]
      rcases ih (a := parent) with hself | hnamed
      · exact .inr (.inl (.inl hself.symm))
      · exact .inr (.inr hnamed)
    · rw [origin_cons_of_ne hchild, names_cons]
      exact (ih (a := a)).imp id .inr

theorem kin_cons_of_ne (ha : a ≠ child) (hb : b ≠ child) :
    Kin ((parent, child) :: lineage) a b ↔ lineage.Kin a b := by
  rw [Kin, origin_cons_of_ne ha, origin_cons_of_ne hb, Kin]

theorem kin_cons_child (hb : b ≠ child) :
    Kin ((parent, child) :: lineage) child b ↔ lineage.Kin parent b := by
  rw [Kin, origin_cons_self, origin_cons_of_ne hb, Kin]

/-- What the lineage does not name is kin to nothing else. -/
theorem not_kin_of_not_names (h : ¬ lineage.Names a) (hne : a ≠ b) : ¬ lineage.Kin a b := by
  intro hkin
  rw [Kin, origin_of_not_names h] at hkin
  have horigin : lineage.origin b = b ∨ lineage.Names (lineage.origin b) := origin_eq_or_names
  rcases horigin with hself | hnamed
  · exact hne (hkin.trans hself)
  · exact h (hkin ▸ hnamed)

/-- A kinship has one tip at most. -/
theorem Grows.tip_unique (h : lineage.Grows) (hkin : lineage.Kin a b) (ha : ¬ lineage.MovedOn a)
    (hb : ¬ lineage.MovedOn b) : a = b := by
  induction lineage generalizing a b with
  | nil => exact hkin
  | cons pair earlier ih =>
    obtain ⟨parent, child⟩ := pair
    obtain ⟨hparent, -, -, hearlier⟩ := h
    rw [movedOn_cons, not_or] at ha hb
    unfold Kin at hkin ih
    -- A child is kin to a tip of before only if that tip is its parent, which has moved on by now.
    have hchild {c : α} (hc : parent ≠ c ∧ ¬ MovedOn earlier c) :
        origin earlier parent ≠ origin earlier c := fun hsame ↦ hc.1 (ih hearlier hsame hparent hc.2)
    by_cases hachild : a = child
    · by_cases hbchild : b = child
      · rw [hachild, hbchild]
      · rw [hachild, origin_cons_self, origin_cons_of_ne hbchild] at hkin
        exact absurd hkin (hchild hb)
    · by_cases hbchild : b = child
      · rw [hbchild, origin_cons_self, origin_cons_of_ne hachild] at hkin
        exact absurd hkin.symm (hchild ha)
      · rw [origin_cons_of_ne hachild, origin_cons_of_ne hbchild] at hkin
        exact ih hearlier hkin ha.2 hb.2

omit [DecidableEq α] in
/-- Nothing is made from the same twice. -/
theorem Grows.child_unique (h : lineage.Grows) (ha : (parent, a) ∈ lineage) (hb : (parent, b) ∈ lineage) :
    a = b := by
  induction lineage with
  | nil => cases ha
  | cons pair earlier ih =>
    obtain ⟨first, made⟩ := pair
    obtain ⟨hfirst, -, -, hearlier⟩ := h
    rcases List.mem_cons.mp ha with hanew | haold <;> rcases List.mem_cons.mp hb with hbnew | hbold
    · exact (Prod.ext_iff.mp hanew).2.trans (Prod.ext_iff.mp hbnew).2.symm
    · exact absurd ⟨_, hbold, (Prod.ext_iff.mp hanew).1⟩ hfirst
    · exact absurd ⟨_, haold, (Prod.ext_iff.mp hbnew).1⟩ hfirst
    · exact ih hearlier haold hbold

end Lineage

end Taskologic.Library
