import Mathlib.Tactic

/-!
# Extreme entries of a list

The entry of a list with the least or the greatest key. `firstMinBy` takes the first of several with
the least key and `lastMaxBy` the last of several with the greatest, the two conventions of iterators
with `min_by_key` and `max_by_key`.
-/

set_option autoImplicit false
set_option relaxedAutoImplicit false

namespace Taskologic.Library

variable {α κ : Type*} [LinearOrder κ]

/-- The first entry with the least key. -/
def firstMinBy (key : α → κ) : List α → Option α
  | [] => none
  | a :: rest =>
    match firstMinBy key rest with
    | none => some a
    | some b => if key a ≤ key b then some a else some b

/-- The last entry with the greatest key. -/
def lastMaxBy (key : α → κ) : List α → Option α
  | [] => none
  | a :: rest =>
    match lastMaxBy key rest with
    | none => some a
    | some b => if key a ≤ key b then some b else some a

variable {key : α → κ} {entries : List α} {a : α}

theorem mem_of_firstMinBy (h : firstMinBy key entries = some a) : a ∈ entries := by
  induction entries generalizing a with
  | nil => cases h
  | cons b rest ih =>
    simp only [firstMinBy] at h
    split at h
    · simp_all
    · rename_i c hrest
      split_ifs at h <;> cases h
      · exact List.mem_cons_self
      · exact List.mem_cons_of_mem _ (ih hrest)

theorem mem_of_lastMaxBy (h : lastMaxBy key entries = some a) : a ∈ entries := by
  induction entries generalizing a with
  | nil => cases h
  | cons b rest ih =>
    simp only [lastMaxBy] at h
    split at h
    · simp_all
    · rename_i c hrest
      split_ifs at h <;> cases h
      · exact List.mem_cons_of_mem _ (ih hrest)
      · exact List.mem_cons_self

theorem lastMaxBy_eq_none_iff : lastMaxBy key entries = none ↔ entries = [] := by
  cases entries with
  | nil => simp [lastMaxBy]
  | cons b rest =>
    simp only [lastMaxBy, reduceCtorEq, iff_false]
    split
    · simp
    · split_ifs <;> simp

/-- The last entry with the greatest key: none before it has a greater one, and all after it have smaller ones. -/
theorem lastMaxBy_eq_some_iff : lastMaxBy key entries = some a ↔ ∃ before after, entries = before ++ a :: after ∧
    (∀ b ∈ before, key b ≤ key a) ∧ ∀ b ∈ after, key b < key a := by
  induction entries generalizing a with
  | nil => simp [lastMaxBy]
  | cons first rest ih =>
    rw [lastMaxBy]
    cases hrest : lastMaxBy key rest with
    | none =>
      obtain rfl := lastMaxBy_eq_none_iff.mp hrest
      constructor
      · rintro ⟨⟩
        exact ⟨[], [], rfl, by simp, by simp⟩
      · rintro ⟨before, after, hsplit, -, -⟩
        cases before with
        | nil =>
          obtain ⟨rfl, -⟩ := List.cons.inj hsplit
          rfl
        | cons b before => exact absurd (congrArg List.length hsplit) (by simp)
    | some best =>
      obtain ⟨before, after, rfl, hbefore, hafter⟩ := ih.mp hrest
      constructor
      · intro h
        simp only at h
        split_ifs at h with hle <;> cases h
        · exact ⟨first :: before, after, rfl, List.forall_mem_cons.mpr ⟨hle, hbefore⟩, hafter⟩
        · refine ⟨[], before ++ best :: after, rfl, by simp, fun b hb ↦ ?_⟩
          have hbest := not_le.mp hle
          rcases List.mem_append.mp hb with hb | hb
          · exact (hbefore b hb).trans_lt hbest
          · rcases List.mem_cons.mp hb with rfl | hb
            · exact hbest
            · exact (hafter b hb).trans hbest
      · rintro ⟨before', after', hsplit, hbefore', hafter'⟩
        cases before' with
        | nil =>
          obtain ⟨rfl, rfl⟩ := List.cons.inj hsplit
          exact if_neg (not_le.mpr (hafter' best (by simp)))
        | cons b before' =>
          obtain ⟨rfl, htail⟩ := List.cons.inj hsplit
          have hsame : lastMaxBy key (before ++ best :: after) = some a :=
            ih.mpr ⟨before', after', htail, (List.forall_mem_cons.mp hbefore').2, hafter'⟩
          obtain rfl : best = a := Option.some.inj (hrest.symm.trans hsame)
          exact if_pos ((List.forall_mem_cons.mp hbefore').1)

end Taskologic.Library
