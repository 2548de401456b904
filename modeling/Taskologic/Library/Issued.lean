import Taskologic.Library.Table

/-!
# Ids given out in order

A table whose rows get the next number as their id, one after another: all ids are below the number that comes next,
and no two rows share one (`Issued`). Rows may go and may change, as long as they keep their ids.
-/

set_option autoImplicit false
set_option relaxedAutoImplicit false

namespace Taskologic.Library

variable {α : Type*} {key : α → ℕ} {next : ℕ} {rows : List α}

/-- The ids of the rows were given out before `next`, each once. -/
structure Issued (key : α → ℕ) (next : ℕ) (rows : List α) : Prop where
  below : ∀ row ∈ rows, key row < next
  keyed : Keyed key rows

namespace Issued

theorem nil : Issued key next [] := ⟨fun _ hrow ↦ (List.not_mem_nil hrow).elim, List.nodup_nil⟩

theorem map (h : Issued key next rows) {f : α → α} (hkeep : ∀ row, key (f row) = key row) :
    Issued key next (rows.map f) where
  below row hrow := by
    obtain ⟨before, hbefore, rfl⟩ := List.mem_map.mp hrow
    rw [hkeep]
    exact h.below before hbefore
  keyed := by
    have hids : (rows.map f).map key = rows.map key := by
      rw [List.map_map]
      exact List.map_congr_left fun row _ ↦ hkeep row
    rw [Keyed, hids]
    exact h.keyed

/-- Changing some of the rows. -/
theorem modify (h : Issued key next rows) {p : α → Prop} [DecidablePred p] {f : α → α}
    (hkeep : ∀ row, key (f row) = key row) : Issued key next (rows.map fun row ↦ if p row then f row else row) :=
  h.map fun row ↦ by
    split_ifs
    · exact hkeep row
    · rfl

theorem sublist {rest : List α} (h : Issued key next rows) (hsub : rest.Sublist rows) : Issued key next rest :=
  ⟨fun row hrow ↦ h.below row (hsub.subset hrow), h.keyed.sublist (hsub.map key)⟩

/-- A row with the next id. -/
theorem add (h : Issued key next rows) {row : α} (hrow : key row = next) :
    Issued key (next + 1) (rows ++ [row]) where
  below other hother := by
    rcases List.mem_append.mp hother with hother | hother
    · exact Nat.lt_succ_of_lt (h.below other hother)
    · obtain rfl := List.mem_singleton.mp hother
      exact hrow ▸ Nat.lt_succ_self _
  keyed := by
    rw [Keyed, List.map_append, List.map_singleton]
    refine List.nodup_append.mpr ⟨h.keyed, List.nodup_singleton _, ?_⟩
    rintro id hid other hother rfl
    obtain rfl := List.mem_singleton.mp hother
    obtain ⟨earlier, hearlier, hsame⟩ := List.mem_map.mp hid
    exact absurd (hsame.trans hrow) (h.below earlier hearlier).ne

/-- The id that comes next is not taken. -/
theorem find?_next (h : Issued key next rows) : rows.find? (fun row ↦ key row == next) = none :=
  List.find?_eq_none.mpr fun row hrow ↦ by simpa using (h.below row hrow).ne

/-- The row that was added is found by its id. -/
theorem find?_add (h : Issued key next rows) {row : α} (hrow : key row = next) :
    (rows ++ [row]).find? (fun other ↦ key other == next) = some row := by
  rw [List.find?_append, h.find?_next, Option.none_or, List.find?_singleton, if_pos (by simpa using hrow)]

end Issued

end Taskologic.Library
