import Mathlib.Data.List.InsertIdx
import Mathlib.Data.List.Lemmas
import Mathlib.Data.List.Sort

/-!
# Slots of a sorted list

`sortByKey` sorts a list by a key of its entries. A list is kept in the order of a key, and one entry gets a new key. Where does it come to stand? `Fits others slot key`
says that a key belongs into a slot of the others: all keys above the slot are smaller, all below it are greater, for
which the two neighbours are enough (`fits_iff_neighbours`). The sorted list has the new key in that slot exactly if it
fits, also as seen through a name for each key (`map_insertionSort_eq_insertIdx_iff`).
-/

set_option autoImplicit false
set_option relaxedAutoImplicit false

namespace Taskologic.Library

variable {α κ ν : Type*} [LinearOrder κ]

/-! ### Sorting by a key -/

/-- `sort_by_key`. -/
def sortByKey (key : α → κ) (l : List α) : List α := l.insertionSort fun a b ↦ key a ≤ key b

theorem perm_sortByKey (key : α → κ) (l : List α) : (sortByKey key l).Perm l := List.perm_insertionSort _ l

theorem pairwise_sortByKey (key : α → κ) (l : List α) : (sortByKey key l).Pairwise fun a b ↦ key a ≤ key b := by
  have htotal : Std.Total fun a b : α ↦ key a ≤ key b := ⟨fun a b ↦ le_total (key a) (key b)⟩
  have htrans : IsTrans α fun a b ↦ key a ≤ key b := ⟨fun _ _ _ hab hbc ↦ le_trans hab hbc⟩
  exact List.pairwise_insertionSort _ l

/-- The keys of a list sorted by its keys. -/
theorem map_sortByKey (key : α → κ) (l : List α) : (sortByKey key l).map key = (l.map key).insertionSort (· ≤ ·) :=
  List.map_insertionSort _ _ key l fun _ _ _ _ ↦ Iff.rfl

/-! ### Names of the keys -/

/-- Keys whose names are all different are sorted already if the sorted keys have the same names in the same order. -/
theorem map_insertionSort_eq_map_iff {keys : List κ} {name : κ → ν} (hnodup : (keys.map name).Nodup) :
    (keys.insertionSort (· ≤ ·)).map name = keys.map name ↔ keys.Pairwise (· ≤ ·) := by
  refine ⟨fun hsame ↦ ?_, fun hsorted ↦ by rw [hsorted.insertionSort_eq]⟩
  have hinj := List.inj_on_of_nodup_map hnodup
  have hperm := List.perm_insertionSort (· ≤ ·) keys
  have hkeys : keys.insertionSort (· ≤ ·) = keys := by
    refine List.ext_getElem (hperm.length_eq) fun i hi hi' ↦ ?_
    refine hinj (hperm.mem_iff.mp (List.getElem_mem hi)) (List.getElem_mem hi') ?_
    have hname := congrArg (fun names ↦ names[i]?) hsame
    simpa [hi, hi'] using hname
  rw [← hkeys]
  exact List.pairwise_insertionSort _ _

/-- Keys below all others come first. -/
theorem insertionSort_append {below above : List κ} (h : ∀ a ∈ below, ∀ b ∈ above, a ≤ b) :
    (below ++ above).insertionSort (· ≤ ·) = below.insertionSort (· ≤ ·) ++ above.insertionSort (· ≤ ·) := by
  refine List.Perm.eq_of_pairwise' (r := (· ≤ ·)) (List.pairwise_insertionSort _ _) ?_ ?_
  · refine List.pairwise_append.mpr ⟨List.pairwise_insertionSort _ _, List.pairwise_insertionSort _ _, ?_⟩
    intro a ha b hb
    exact h a (List.mem_insertionSort _ |>.mp ha) b (List.mem_insertionSort _ |>.mp hb)
  · exact (List.perm_insertionSort _ _).trans
      ((List.perm_insertionSort _ _).symm.append (List.perm_insertionSort _ _).symm)

/-- In a list in the strict order of one key, another key is in order exactly if it goes with the first one. -/
theorem pairwise_iff_of_pairwise_lt {key : α → κ} {l : List α} {r : α → α → Prop}
    (hl : l.Pairwise fun a b ↦ key a < key b) :
    l.Pairwise r ↔ ∀ a ∈ l, ∀ b ∈ l, key a < key b → r a b := by
  refine ⟨fun h a ha b hb hlt ↦ ?_, fun h ↦ hl.imp_of_mem fun ha hb hlt ↦ h _ ha _ hb hlt⟩
  obtain ⟨i, hi, rfl⟩ := List.mem_iff_getElem.mp ha
  obtain ⟨j, hj, rfl⟩ := List.mem_iff_getElem.mp hb
  rcases lt_trichotomy i j with hij | rfl | hji
  · exact List.pairwise_iff_getElem.mp h i j hi hj hij
  · exact absurd hlt (lt_irrefl _)
  · exact absurd (List.pairwise_iff_getElem.mp hl j i hj hi hji) hlt.asymm

/-! ### Slots -/

variable {others l : List κ} {key : κ} {slot : ℕ}

/-- The key belongs into a slot of a list: behind all above the slot, before all below. -/
def Fits (others : List κ) (slot : ℕ) (key : κ) : Prop :=
  (∀ above ∈ others.take slot, above < key) ∧ ∀ below ∈ others.drop slot, key < below

theorem fits_append {above below : List κ} :
    Fits (above ++ below) above.length key ↔ (∀ a ∈ above, a < key) ∧ ∀ b ∈ below, key < b := by
  simp [Fits]

theorem insertIdx_eq_take_append_drop {l : List α} {a : α} {i : ℕ} (hi : i ≤ l.length) :
    l.insertIdx i a = l.take i ++ a :: l.drop i := by
  induction l generalizing i with
  | nil =>
    obtain rfl : i = 0 := Nat.le_zero.mp hi
    rfl
  | cons b rest ih =>
    cases i with
    | zero => rfl
    | succ i => simp [ih (Nat.le_of_succ_le_succ hi)]

/-- In a list in order the two neighbours of the slot decide. -/
theorem fits_iff_neighbours (hothers : others.Pairwise (· < ·)) (hslot : slot ≤ others.length) :
    Fits others slot key ↔ (∀ above, slot ≠ 0 → others[slot - 1]? = some above → above < key) ∧
      ∀ below, others[slot]? = some below → key < below := by
  have hless {i j : ℕ} (hj : j < others.length) (hij : i < j) : others[i] < others[j] :=
    List.pairwise_iff_getElem.mp hothers i j (hij.trans hj) hj hij
  constructor
  · rintro ⟨habove, hbelow⟩
    refine ⟨fun above hsome h ↦ habove above ?_, fun below h ↦ hbelow below ?_⟩
    · obtain ⟨hi, rfl⟩ := List.getElem?_eq_some_iff.mp h
      exact List.mem_take_iff_getElem.mpr ⟨slot - 1, by omega, rfl⟩
    · obtain ⟨hi, rfl⟩ := List.getElem?_eq_some_iff.mp h
      exact List.mem_drop_iff_getElem.mpr ⟨0, by omega, rfl⟩
  · rintro ⟨habove, hbelow⟩
    refine ⟨fun above h ↦ ?_, fun below h ↦ ?_⟩
    · obtain ⟨i, hi, rfl⟩ := List.mem_take_iff_getElem.mp h
      have hlast : slot - 1 < others.length := by omega
      have hkey := habove _ (by omega) (List.getElem?_eq_getElem hlast)
      rcases (show i ≤ slot - 1 by omega).eq_or_lt with rfl | hlt
      · exact hkey
      · exact (hless hlast hlt).trans hkey
    · obtain ⟨i, hi, rfl⟩ := List.mem_drop_iff_getElem.mp h
      have hfirst : slot < others.length := by omega
      have hkey := hbelow _ (List.getElem?_eq_getElem hfirst)
      rcases Nat.eq_zero_or_pos i with rfl | hpos
      · exact hkey
      · exact hkey.trans (hless (by omega) (by omega))

/-- A new key fits somewhere. -/
theorem exists_fits (hothers : others.Pairwise (· < ·)) (hfresh : key ∉ others) :
    ∃ slot, slot ≤ others.length ∧ Fits others slot key := by
  induction others with
  | nil => exact ⟨0, le_rfl, by simp [Fits]⟩
  | cons a rest ih =>
    obtain ⟨hfirst, hrest⟩ := List.pairwise_cons.mp hothers
    rcases lt_trichotomy a key with hlt | rfl | hgt
    · obtain ⟨slot, hslot, habove, hbelow⟩ := ih hrest fun h ↦ hfresh (List.mem_cons_of_mem _ h)
      exact ⟨slot + 1, Nat.succ_le_succ hslot, by simpa [hlt] using habove, hbelow⟩
    · exact absurd List.mem_cons_self hfresh
    · exact ⟨0, Nat.zero_le _, by simp, by simpa [hgt] using fun b hb ↦ hgt.trans (hfirst b hb)⟩

/-- The sorted list has a key where it fits. -/
theorem insertionSort_eq_insertIdx (hl : l.Perm (key :: others)) (hothers : others.Pairwise (· < ·))
    (hslot : slot ≤ others.length) (hfits : Fits others slot key) :
    l.insertionSort (· ≤ ·) = others.insertIdx slot key := by
  rw [insertIdx_eq_take_append_drop hslot]
  refine List.Perm.eq_of_pairwise' (r := (· ≤ ·)) (List.pairwise_insertionSort _ _) ?_ ?_
  · rw [List.pairwise_append, List.pairwise_cons]
    refine ⟨(hothers.take).imp le_of_lt, ⟨fun below h ↦ (hfits.2 below h).le, (hothers.drop).imp le_of_lt⟩, ?_⟩
    intro above habove below hbelow
    have hless := hfits.1 above habove
    rcases List.mem_cons.mp hbelow with rfl | hbelow
    · exact hless.le
    · exact (hless.trans (hfits.2 below hbelow)).le
  · have hparts : (key :: others).Perm (others.take slot ++ key :: others.drop slot) := by
      have hmiddle : (key :: (others.take slot ++ others.drop slot)).Perm
          (others.take slot ++ key :: others.drop slot) := List.perm_middle.symm
      rwa [List.take_append_drop] at hmiddle
    exact (List.perm_insertionSort _ _).trans (hl.trans hparts)

/-- By the names of the keys, the sorted list has a key in a slot exactly if it fits there. -/
theorem map_insertionSort_eq_insertIdx_iff {name : κ → ν} (hl : l.Perm (key :: others))
    (hothers : others.Pairwise (· < ·)) (hname : name key ∉ others.map name) (hslot : slot ≤ others.length) :
    (l.insertionSort (· ≤ ·)).map name = (others.map name).insertIdx slot (name key) ↔ Fits others slot key := by
  constructor
  · intro hsame
    obtain ⟨found, hfound, hfits⟩ := exists_fits hothers fun h ↦ hname (List.mem_map_of_mem h)
    rw [insertionSort_eq_insertIdx hl hothers hfound hfits, List.map_insertIdx] at hsame
    have heq : found = slot := List.injOn_insertIdx_index_of_notMem _ _ hname (by simpa using hfound)
      (by simpa using hslot) hsame
    exact heq ▸ hfits
  · intro hfits
    rw [insertionSort_eq_insertIdx hl hothers hslot hfits, List.map_insertIdx]

end Taskologic.Library
