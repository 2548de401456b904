import Mathlib.Tactic

/-!
# Tables with a key

A table is a list of rows, and a key is a function of the row. The first row with a key is the only
one when the keys are apart, which is what `Keyed` says.
-/

set_option autoImplicit false
set_option relaxedAutoImplicit false

namespace Taskologic.Library

variable {α κ : Type*}

/-- The keys of the rows are apart. -/
def Keyed (key : α → κ) (rows : List α) : Prop := (rows.map key).Nodup

instance [DecidableEq κ] (key : α → κ) (rows : List α) : Decidable (Keyed key rows) :=
  inferInstanceAs (Decidable (rows.map key).Nodup)

variable [BEq κ] [LawfulBEq κ] {key : α → κ} {rows : List α} {row : α} {k : κ}

/-- A row is found by its key exactly when it is there. -/
theorem Keyed.find?_eq_some_iff (hkeyed : Keyed key rows) :
    rows.find? (fun r ↦ key r == k) = some row ↔ row ∈ rows ∧ key row = k := by
  constructor
  · intro hfind
    exact ⟨List.mem_of_find?_eq_some hfind, by simpa using List.find?_some hfind⟩
  · rintro ⟨hmem, rfl⟩
    cases hfind : rows.find? fun r ↦ key r == key row with
    | none => exact absurd (List.find?_eq_none.mp hfind row hmem) (by simp)
    | some other =>
      have hsame : key other = key row := by simpa using List.find?_some hfind
      rw [List.inj_on_of_nodup_map hkeyed (List.mem_of_find?_eq_some hfind) hmem hsame]

omit [BEq κ] [LawfulBEq κ] in
/-- What is made of some of the rows has keys apart if it keeps them. -/
theorem Keyed.filterMap {β : Type*} {f : α → Option β} {newKey : β → κ} (hkeyed : Keyed key rows)
    (hkeep : ∀ row made, f row = some made → newKey made = key row) : Keyed newKey (rows.filterMap f) := by
  refine List.Nodup.sublist ?_ hkeyed
  induction rows with
  | nil => exact List.Sublist.slnil
  | cons row rows ih =>
    have hrest := ih (List.nodup_cons.mp hkeyed).2
    cases hmade : f row with
    | none =>
      rw [List.filterMap_cons_none hmade, List.map_cons]
      exact hrest.cons _
    | some made =>
      rw [List.filterMap_cons_some hmade, List.map_cons, List.map_cons, hkeep row made hmade]
      exact hrest.cons_cons _

omit [BEq κ] [LawfulBEq κ] in
/-- Among rows that are apart one at most meets a condition that no two meet. -/
theorem countP_le_one {p : α → Bool} (hapart : rows.Nodup)
    (honly : ∀ a ∈ rows, ∀ b ∈ rows, p a = true → p b = true → a = b) : rows.countP p ≤ 1 := by
  rw [List.countP_eq_length_filter]
  have hfiltered := hapart.filter p
  cases hrows : rows.filter p with
  | nil => exact Nat.zero_le 1
  | cons a rest =>
    cases rest with
    | nil => exact le_rfl
    | cons b rest =>
      have ha : a ∈ rows.filter p := hrows ▸ List.mem_cons_self
      have hb : b ∈ rows.filter p := hrows ▸ List.mem_cons_of_mem _ List.mem_cons_self
      have hsame := honly a (List.mem_of_mem_filter ha) b (List.mem_of_mem_filter hb)
        (List.mem_filter.mp ha).2 (List.mem_filter.mp hb).2
      rw [hrows, hsame] at hfiltered
      exact absurd List.mem_cons_self (List.nodup_cons.mp hfiltered).1

/-! ### Changing rows -/

omit [LawfulBEq κ] in
/-- A change that keeps the keys changes what is found. -/
theorem find?_map_key {f : α → α} (hkeep : ∀ row, key (f row) = key row) (rows : List α) (k : κ) :
    (rows.map f).find? (fun r ↦ key r == k) = (rows.find? fun r ↦ key r == k).map f := by
  rw [List.find?_map]
  congr 2
  funext row
  rw [Function.comp_apply, hkeep]

/-- Changing the rows with one key leaves the others to be found as they were. -/
theorem find?_map_ite [DecidableEq κ] {f : α → α} (hkeep : ∀ row, key (f row) = key row) (rows : List α)
    (changed k : κ) :
    (rows.map fun row ↦ if key row = changed then f row else row).find? (fun r ↦ key r == k) =
      if k = changed then (rows.find? fun r ↦ key r == k).map f
      else rows.find? fun r ↦ key r == k := by
  rw [find?_map_key (fun row ↦ by split_ifs <;> simp [hkeep])]
  cases hfind : rows.find? fun r ↦ key r == k with
  | none => simp
  | some row =>
    have hkey : key row = k := by simpa using List.find?_some hfind
    simp only [Option.map_some, hkey]
    split_ifs <;> rfl

/-- Taking rows away does not make others findable, as the keys are apart. -/
theorem Keyed.find?_filter (hkeyed : Keyed key rows) (p : α → Bool) (k : κ) :
    (rows.filter p).find? (fun r ↦ key r == k) = (rows.find? fun r ↦ key r == k).filter p := by
  have hrest : Keyed key (rows.filter p) :=
    hkeyed.sublist (List.filter_sublist.map key)
  refine Option.ext fun row ↦ ?_
  rw [hrest.find?_eq_some_iff, Option.filter_eq_some_iff, hkeyed.find?_eq_some_iff, List.mem_filter]
  tauto

/-- Changes the first row that satisfies a condition. -/
def modifyFirst (p : α → Bool) (f : α → α) : List α → List α
  | [] => []
  | row :: rest => if p row then f row :: rest else row :: modifyFirst p f rest

/-- A change that keeps a property of the row keeps it of the table. -/
theorem map_modifyFirst {β : Type*} {p : α → Bool} {f : α → α} {g : α → β}
    (hkeep : ∀ row, g (f row) = g row) (rows : List α) :
    (modifyFirst p f rows).map g = rows.map g := by
  induction rows with
  | nil => rfl
  | cons first rest ih =>
    rw [modifyFirst]
    split_ifs
    · rw [List.map_cons, List.map_cons, hkeep]
    · rw [List.map_cons, List.map_cons, ih]

theorem mem_of_mem_modifyFirst {p : α → Bool} {f : α → α} {rows : List α} {row : α}
    (h : row ∈ modifyFirst p f rows) : row ∈ rows ∨ ∃ old ∈ rows, p old = true ∧ row = f old := by
  induction rows with
  | nil => cases h
  | cons first rest ih =>
    rw [modifyFirst] at h
    split_ifs at h with hp
    · rcases List.mem_cons.mp h with rfl | hrest
      · exact .inr ⟨first, List.mem_cons_self, hp, rfl⟩
      · exact .inl (List.mem_cons_of_mem _ hrest)
    · rcases List.mem_cons.mp h with rfl | hrest
      · exact .inl List.mem_cons_self
      · rcases ih hrest with hmem | ⟨old, hold, hp', rfl⟩
        · exact .inl (List.mem_cons_of_mem _ hmem)
        · exact .inr ⟨old, List.mem_cons_of_mem _ hold, hp', rfl⟩

/-! ### Tables in order -/

section Sorted

variable {α κ : Type*} [LinearOrder κ] (key : α → κ)

/-- It does not matter which of two rows goes into a table first, as long as the one goes before its equals
and the other behind them. -/
theorem orderedInsert_comm (first last : α) (rows : List α) :
    (rows.orderedInsert (fun a b ↦ key a < key b) last).orderedInsert (fun a b ↦ key a ≤ key b) first =
      (rows.orderedInsert (fun a b ↦ key a ≤ key b) first).orderedInsert (fun a b ↦ key a < key b) last := by
  induction rows with
  | nil => by_cases h : key last < key first <;> simp [List.orderedInsert, h, not_le.mpr, not_lt.mp]
  | cons row rows ih =>
    by_cases hlast : key last < key row <;> by_cases hfirst : key first ≤ key row
    · by_cases h : key last < key first <;> simp [List.orderedInsert, h, hlast, hfirst, not_le.mpr, not_lt.mp]
    · have h : key last < key first := hlast.trans (not_le.mp hfirst)
      simp [List.orderedInsert, h, hlast, hfirst]
    · have h : ¬ key last < key first := fun h ↦ hlast (h.trans_le hfirst)
      simp [List.orderedInsert, h, hlast, hfirst]
    · simp [List.orderedInsert, hlast, hfirst, ih]

/-- A new row comes behind those that are not after it. -/
theorem insertionSort_concat (rows : List α) (row : α) :
    (rows ++ [row]).insertionSort (fun a b ↦ key a ≤ key b) =
      (rows.insertionSort fun a b ↦ key a ≤ key b).takeWhile (fun a ↦ decide (key a ≤ key row)) ++
        row :: (rows.insertionSort fun a b ↦ key a ≤ key b).dropWhile fun a ↦ decide (key a ≤ key row) := by
  have hlast : (rows ++ [row]).insertionSort (fun a b ↦ key a ≤ key b) =
      (rows.insertionSort fun a b ↦ key a ≤ key b).orderedInsert (fun a b ↦ key a < key b) row := by
    induction rows with
    | nil => simp
    | cons first rows ih =>
      rw [List.cons_append, List.insertionSort_cons, ih, orderedInsert_comm, List.insertionSort_cons]
  rw [hlast, List.orderedInsert_eq_take_drop]
  simp only [not_lt]

/-- What is left of a table in order after the rows up to a bound is after the bound. -/
theorem lt_of_mem_dropWhile {rows : List α} {bound : κ} {row : α}
    (h : row ∈ (rows.insertionSort fun a b ↦ key a ≤ key b).dropWhile fun a ↦ decide (key a ≤ bound)) :
    bound < key row := by
  have hsorted : (rows.insertionSort fun a b ↦ key a ≤ key b).Pairwise fun a b ↦ key a ≤ key b := by
    have htotal : Std.Total fun a b : α ↦ key a ≤ key b := ⟨fun a b ↦ le_total (key a) (key b)⟩
    have htrans : IsTrans α fun a b ↦ key a ≤ key b := ⟨fun _ _ _ ↦ le_trans⟩
    exact List.pairwise_insertionSort _ rows
  generalize rows.insertionSort (fun a b ↦ key a ≤ key b) = sorted at h hsorted
  induction sorted with
  | nil => cases h
  | cons first sorted ih =>
    rw [List.dropWhile_cons] at h
    split_ifs at h with hfirst
    · exact ih h hsorted.of_cons
    · have hbound : bound < key first := by simpa using hfirst
      rcases List.mem_cons.mp h with rfl | hmem
      · exact hbound
      · exact hbound.trans_le (List.rel_of_pairwise_cons hsorted hmem)

end Sorted

end Taskologic.Library
