import Mathlib.Tactic

/-!
# Renumbering

Rows that move from one table into another get the numbers that come next there, in the order in which they
come. `renumbering` is the table of old and new keys, the latest entry first. It sends different keys to
different numbers, and to none that was handed out before; a key that does not come along is sent nowhere.
-/

set_option autoImplicit false
set_option relaxedAutoImplicit false

namespace Taskologic.Library

variable {α ρ : Type*}

/-- Every key with the number it gets. -/
def renumbering (base : ℕ) (keys : List α) : List (α × ℕ) := (keys.zipIdx base).reverse

@[simp] theorem renumbering_nil (base : ℕ) : renumbering base ([] : List α) = [] := rfl

theorem renumbering_cons (base : ℕ) (key : α) (keys : List α) :
    renumbering base (key :: keys) = renumbering (base + 1) keys ++ [(key, base)] := by
  rw [renumbering, List.zipIdx_cons, List.reverse_cons]
  rfl

theorem renumbering_append (base : ℕ) (keys later : List α) :
    renumbering base (keys ++ later) = renumbering (base + keys.length) later ++ renumbering base keys := by
  rw [renumbering, List.zipIdx_append, List.reverse_append]
  rfl

/-- The keys of some rows, numbered as the rows are. -/
theorem renumbering_map (base : ℕ) (key : ρ → α) (rows : List ρ) :
    renumbering base (rows.map key) = (rows.zipIdx.map fun (row, i) ↦ (key row, base + i)).reverse := by
  rw [renumbering, List.zipIdx_map, List.zipIdx_eq_map_add, List.map_map]
  simp [Function.comp_def]

/-- The numbers rows get are the ones that come next. -/
theorem exists_zipIdx_iff {base number : ℕ} {rows : List ρ} :
    (∃ row i, (row, i) ∈ rows.zipIdx ∧ base + i = number) ↔ base ≤ number ∧ number < base + rows.length := by
  constructor
  · rintro ⟨row, i, hmem, rfl⟩
    have hlt := List.snd_lt_of_mem_zipIdx hmem
    simp only at hlt
    omega
  · rintro ⟨hbase, hlt⟩
    have hi : number - base < rows.length := by omega
    refine ⟨rows[number - base], number - base,
      List.mk_mem_zipIdx_iff_getElem?.mpr (List.getElem?_eq_getElem hi), ?_⟩
    omega

theorem mem_renumbering {base number : ℕ} {keys : List α} {key : α} :
    (key, number) ∈ renumbering base keys ↔ base ≤ number ∧ keys[number - base]? = some key := by
  rw [renumbering, List.mem_reverse, List.mk_mem_zipIdx_iff_le_and_getElem?_sub]

/-- What is found is in the table. -/
theorem mem_of_lookup {β : Type*} [BEq α] [LawfulBEq α] {pairs : List (α × β)} {key : α} {value : β}
    (h : pairs.lookup key = some value) : (key, value) ∈ pairs := by
  obtain ⟨before, after, rfl, -⟩ := List.lookup_eq_some_iff.mp h
  simp

section Lookup

variable [DecidableEq α] {base number : ℕ} {keys : List α} {key other : α}

/-- Where keys do not repeat, a pair of the table is what is found. -/
theorem lookup_eq_some_iff_mem {β : Type*} {pairs : List (α × β)} {value : β}
    (hkeys : (pairs.map Prod.fst).Nodup) : pairs.lookup key = some value ↔ (key, value) ∈ pairs := by
  induction pairs with
  | nil => simp
  | cons pair rest ih =>
    obtain ⟨first, found⟩ := pair
    obtain ⟨hnew, hrest⟩ := List.nodup_cons.mp hkeys
    by_cases hkey : key = first
    · subst hkey
      have habsent : (key, value) ∉ rest := fun hmem ↦ hnew (List.mem_map.mpr ⟨_, hmem, rfl⟩)
      simp [habsent, eq_comm]
    · simp [List.lookup_cons, beq_eq_false_iff_ne.mpr hkey, ih hrest, hkey]

theorem lookup_renumbering (hkeys : keys.Nodup) :
    (renumbering base keys).lookup key = some number ↔ base ≤ number ∧ keys[number - base]? = some key := by
  rw [lookup_eq_some_iff_mem, mem_renumbering]
  rwa [renumbering, List.map_reverse, List.nodup_reverse, List.zipIdx_map_fst]

theorem lookup_renumbering_getElem? {i : ℕ} (hkeys : keys.Nodup) (hkey : keys[i]? = some key) :
    (renumbering base keys).lookup key = some (base + i) :=
  (lookup_renumbering hkeys).mpr ⟨Nat.le_add_right .., by rwa [Nat.add_sub_cancel_left]⟩

theorem lookup_renumbering_eq_none : (renumbering base keys).lookup key = none ↔ key ∉ keys := by
  rw [List.lookup_eq_none_iff]
  constructor
  · intro habsent hmem
    obtain ⟨i, hi⟩ := List.mem_iff_getElem?.mp hmem
    have hpair : (key, base + i) ∈ renumbering base keys :=
      mem_renumbering.mpr ⟨Nat.le_add_right .., by rwa [Nat.add_sub_cancel_left]⟩
    simpa using habsent _ hpair
  · rintro habsent ⟨found, number⟩ hmem
    rw [bne_iff_ne]
    rintro rfl
    exact habsent (List.mem_of_getElem? (mem_renumbering.mp hmem).2)

/-- Different keys get different numbers. -/
theorem lookup_renumbering_inj (hkeys : keys.Nodup) (hkey : (renumbering base keys).lookup key = some number)
    (hother : (renumbering base keys).lookup other = some number) : key = other :=
  Option.some.inj (((lookup_renumbering hkeys).mp hkey).2.symm.trans ((lookup_renumbering hkeys).mp hother).2)

/-- The numbers are the ones that come next. -/
theorem mem_range_of_lookup (hkeys : keys.Nodup) (hkey : (renumbering base keys).lookup key = some number) :
    base ≤ number ∧ number < base + keys.length := by
  obtain ⟨hbase, hat⟩ := (lookup_renumbering hkeys).mp hkey
  have hlt := (List.getElem?_eq_some_iff.mp hat).1
  omega

end Lookup

/-! ### Rows with consecutive numbers -/

section Rows

variable {key : ρ → ℕ} {base count : ℕ} {old rows : List ρ}

theorem find?_numbered (hrows : rows.map key = List.range' base count) (i : ℕ) :
    rows.find? (fun row ↦ key row == base + i) = rows[i]? := by
  induction rows generalizing base count i with
  | nil => rfl
  | cons row rows ih =>
    cases count with
    | zero => cases hrows
    | succ count =>
      obtain ⟨hrow, hrest⟩ := List.cons.inj hrows
      cases i with
      | zero => simp [hrow]
      | succ i =>
        have hother : (key row == base + (i + 1)) = false := by simp [hrow]
        rw [List.find?_cons, hother, List.getElem?_cons_succ, ← ih hrest i]
        simp only [Nat.add_assoc, Nat.add_comm 1 i]

/-- Behind rows with lower numbers they are found just as well. -/
theorem find?_append_numbered (hold : ∀ row ∈ old, key row < base)
    (hrows : rows.map key = List.range' base count) (i : ℕ) :
    (old ++ rows).find? (fun row ↦ key row == base + i) = rows[i]? := by
  have hnone : old.find? (fun row ↦ key row == base + i) = none := by
    refine List.find?_eq_none.mpr fun row hrow ↦ ?_
    have := hold row hrow
    simp only [beq_iff_eq]
    omega
  rw [List.find?_append, hnone, Option.none_or, find?_numbered hrows]

end Rows

end Taskologic.Library
