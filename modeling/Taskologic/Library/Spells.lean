import Mathlib.Algebra.BigOperators.Group.List.Basic
import Mathlib.Data.Finset.Max
import Mathlib.Data.Int.Interval
import Mathlib.Data.Set.Card
import Mathlib.Tactic

/-!
# Spells

Moments are counted in whole units, and a spell from `since` to `till` is made of the moments `since ≤ x < till`. A set
of moments falls into spells that are as long as they can be: between any two of them a moment is missing
(`MaximalSpells`). Every finite set does so (`exists_maximalSpells`), and the spells are together as long as the set has
moments (`MaximalSpells.total_eq`).
-/

set_option autoImplicit false
set_option relaxedAutoImplicit false

namespace Taskologic.Library

/-- The length of some spells together. -/
def totalLength (spells : List (ℤ × ℤ)) : ℤ := (spells.map fun spell ↦ spell.2 - spell.1).sum

@[simp] theorem totalLength_nil : totalLength [] = 0 := rfl

@[simp] theorem totalLength_cons (spell : ℤ × ℤ) (spells : List (ℤ × ℤ)) :
    totalLength (spell :: spells) = spell.2 - spell.1 + totalLength spells := List.sum_cons

/-- The spells a set of moments falls into, the last one first. -/
structure MaximalSpells (moments : Set ℤ) (spells : List (ℤ × ℤ)) : Prop where
  lasts : ∀ spell ∈ spells, spell.1 < spell.2
  apart : spells.Pairwise fun later earlier ↦ earlier.2 < later.1
  covers : ∀ x, x ∈ moments ↔ ∃ spell ∈ spells, spell.1 ≤ x ∧ x < spell.2

variable {moments : Set ℤ} {spells : List (ℤ × ℤ)}

/-- No moment is at or after the end of all spells. -/
theorem MaximalSpells.lt_of_mem {since till : ℤ} (h : MaximalSpells moments ((since, till) :: spells)) {x : ℤ}
    (hx : x ∈ moments) : x < till := by
  obtain ⟨spell, hspell, -, hbefore⟩ := (h.covers x).mp hx
  rcases List.mem_cons.mp hspell with rfl | hspell
  · exact hbefore
  · have hapart := (List.pairwise_cons.mp h.apart).1 spell hspell
    have hlasts := h.lasts (since, till) List.mem_cons_self
    simp only at hapart hlasts
    omega

/-- The spells before the last one. -/
theorem MaximalSpells.tail {since till : ℤ} (h : MaximalSpells moments ((since, till) :: spells)) :
    MaximalSpells (moments \ Set.Ico since till) spells where
  lasts spell hspell := h.lasts spell (List.mem_cons_of_mem _ hspell)
  apart := (List.pairwise_cons.mp h.apart).2
  covers x := by
    rw [Set.mem_sdiff, h.covers, Set.mem_Ico]
    constructor
    · rintro ⟨⟨spell, hspell, hx⟩, hout⟩
      rcases List.mem_cons.mp hspell with rfl | hspell
      · exact absurd hx hout
      · exact ⟨spell, hspell, hx⟩
    · rintro ⟨spell, hspell, hx⟩
      have hapart := (List.pairwise_cons.mp h.apart).1 spell hspell
      refine ⟨⟨spell, List.mem_cons_of_mem _ hspell, hx⟩, fun hin ↦ ?_⟩
      simp only at hapart
      omega

/-- The last spell and what is before it. -/
theorem MaximalSpells.split {since till : ℤ} (h : MaximalSpells moments ((since, till) :: spells)) :
    moments = Set.Ico since till ∪ moments \ Set.Ico since till :=
  (Set.union_sdiff_cancel fun _ hx ↦ (h.covers _).mpr ⟨(since, till), List.mem_cons_self, hx⟩).symm

theorem MaximalSpells.finite (h : MaximalSpells moments spells) : moments.Finite := by
  induction spells generalizing moments with
  | nil =>
    have hempty : moments = ∅ := by
      ext x
      simp [h.covers]
    exact hempty ▸ Set.finite_empty
  | cons spell spells ih =>
    rw [h.split]
    exact (Set.finite_Ico _ _).union (ih h.tail)

/-- Spells are together as long as there are moments. -/
theorem MaximalSpells.total_eq (h : MaximalSpells moments spells) : totalLength spells = moments.ncard := by
  induction spells generalizing moments with
  | nil =>
    have hempty : moments = ∅ := by
      ext x
      simp [h.covers]
    simp [hempty]
  | cons spell spells ih =>
    obtain ⟨since, till⟩ := spell
    have hlasts : since < till := h.lasts (since, till) List.mem_cons_self
    have hsize : (Set.Ico since till).ncard = (till - since).toNat := by
      rw [← Finset.coe_Ico, Set.ncard_coe_finset, Int.card_Ico]
    have hsum : moments.ncard = (Set.Ico since till).ncard + (moments \ Set.Ico since till).ncard := by
      conv_lhs => rw [h.split]
      exact Set.ncard_union_eq Set.disjoint_sdiff_right (Set.finite_Ico _ _) h.tail.finite
    rw [totalLength_cons, ih h.tail, hsum, hsize]
    omega

/-- A moment after the end of all spells is a new one. -/
theorem MaximalSpells.begin {last : ℤ} (h : MaximalSpells moments spells) (hlast : ∀ spell ∈ spells, spell.2 < last) :
    MaximalSpells (insert last moments) ((last, last + 1) :: spells) where
  lasts := List.forall_mem_cons.mpr ⟨by simp, h.lasts⟩
  apart := List.pairwise_cons.mpr ⟨hlast, h.apart⟩
  covers x := by
    simp only [Set.mem_insert_iff, h.covers, List.mem_cons, exists_eq_or_imp]
    exact or_congr_left (by omega)

/-- A moment at the end of the last spell prolongs it. -/
theorem MaximalSpells.prolong {since last : ℤ} (h : MaximalSpells moments ((since, last) :: spells)) :
    MaximalSpells (insert last moments) ((since, last + 1) :: spells) where
  lasts := by
    obtain ⟨hlasts, hrest⟩ := List.forall_mem_cons.mp h.lasts
    exact List.forall_mem_cons.mpr ⟨hlasts.trans (Int.lt_succ last), hrest⟩
  apart := List.pairwise_cons.mpr (List.pairwise_cons.mp h.apart)
  covers x := by
    have hlasts : since < last := h.lasts (since, last) List.mem_cons_self
    simp only [Set.mem_insert_iff, h.covers, List.mem_cons, exists_eq_or_imp, ← or_assoc]
    exact or_congr_left (by omega)

/-- One more moment after all others: the last spell goes on, or a new one begins. -/
theorem MaximalSpells.insert_last {last : ℤ} (h : MaximalSpells moments spells) (hlast : ∀ x ∈ moments, x < last) :
    ∃ spells', MaximalSpells (insert last moments) spells' := by
  cases spells with
  | nil => exact ⟨_, h.begin (by simp)⟩
  | cons spell spells =>
    obtain ⟨since, till⟩ := spell
    have hlasts : since < till := h.lasts (since, till) List.mem_cons_self
    have hend : till - 1 < last :=
      hlast _ ((h.covers _).mpr ⟨(since, till), List.mem_cons_self, Int.le_sub_one_of_lt hlasts, sub_one_lt till⟩)
    by_cases hnext : till = last
    · subst hnext
      exact ⟨_, h.prolong⟩
    · refine ⟨_, h.begin (List.forall_mem_cons.mpr ⟨?_, fun spell hspell ↦ ?_⟩)⟩
      · exact lt_of_le_of_ne (Int.le_of_sub_one_lt hend) hnext
      · have hapart : spell.2 < since := (List.pairwise_cons.mp h.apart).1 spell hspell
        omega

/-- Every finite set of moments falls into spells. -/
theorem exists_maximalSpells (hfinite : moments.Finite) : ∃ spells, MaximalSpells moments spells := by
  lift moments to Finset ℤ using hfinite
  induction moments using Finset.induction_on_max with
  | empty => exact ⟨[], by simp, .nil, by simp⟩
  | insert last moments hlast ih =>
    obtain ⟨spells, h⟩ := ih
    rw [Finset.coe_insert]
    exact h.insert_last hlast

end Taskologic.Library
