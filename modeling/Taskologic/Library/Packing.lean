import Mathlib.Data.List.Induction
import Mathlib.Tactic

/-!
# Greedy packing

Pieces of given sizes are packed into groups that are at most so wide, one after another and with one unit between two
pieces of a group. `pack` adds each piece to the group that is being filled, or closes that group first when the piece
would not fit. The groups hold the pieces in order (`flatten_pack`); none is empty, none is too wide when no piece is,
and the first piece of a group would not have fitted into the one before (`packed_pack`).
-/

set_option autoImplicit false
set_option relaxedAutoImplicit false

namespace Taskologic.Library

variable {α : Type*}

/-- How wide a group is: its pieces, and one unit between any two. -/
def breadth (size : α → ℕ) (group : List α) : ℕ := (group.map size).sum + (group.length - 1)

/-- The groups that are closed, and the one that is being filled. -/
structure Packing (α : Type*) where
  closed : List (List α)
  current : List α

namespace Packing

/-- Nothing is packed yet. -/
def empty : Packing α := ⟨[], []⟩

/-- Closes the group that is being filled, if there is anything in it. -/
def close (packing : Packing α) : Packing α :=
  if packing.current = [] then packing else ⟨packing.closed ++ [packing.current], []⟩

/-- Adds a piece to the group that is being filled, or to a new one when it does not fit. -/
def add (size : α → ℕ) (width : ℕ) (packing : Packing α) (a : α) : Packing α :=
  if packing.current ≠ [] ∧ width < breadth size packing.current + 1 + size a then
    { packing.close with current := [a] }
  else { packing with current := packing.current ++ [a] }

/-- Packs pieces one after another. -/
def addAll (size : α → ℕ) (width : ℕ) (packing : Packing α) (pieces : List α) : Packing α :=
  pieces.foldl (add size width) packing

/-- All groups. -/
def groups (packing : Packing α) : List (List α) := packing.close.closed

end Packing

/-- The pieces in groups. -/
def pack (size : α → ℕ) (width : ℕ) (pieces : List α) : List (List α) :=
  (Packing.empty.addAll size width pieces).groups

/-- Groups that are filled greedily. -/
structure Packed (size : α → ℕ) (width : ℕ) (groups : List (List α)) : Prop where
  nonempty : ∀ group ∈ groups, group ≠ []
  fits : ∀ group ∈ groups, breadth size group ≤ width
  greedy : groups.IsChain fun group next ↦ ∀ a ∈ next.head?, width < breadth size group + 1 + size a

section Pack

variable {size : α → ℕ} {width : ℕ} {packing : Packing α} {a : α}

theorem breadth_append_singleton {group : List α} (hgroup : group ≠ []) (a : α) :
    breadth size (group ++ [a]) = breadth size group + 1 + size a := by
  have hpos := List.length_pos_iff.mpr hgroup
  simp only [breadth, List.map_append, List.sum_append, List.map_singleton, List.sum_singleton, List.length_append,
    List.length_singleton]
  omega

theorem Packing.groups_of_current (h : packing.current ≠ []) : packing.groups = packing.closed ++ [packing.current] := by
  rw [groups, close, if_neg h]

theorem Packing.groups_of_nil (h : packing.current = []) : packing.groups = packing.closed := by
  rw [groups, close, if_pos h]

/-- A piece goes into a group of its own, or to the end of the last group. -/
theorem Packing.groups_add (size : α → ℕ) (width : ℕ) (packing : Packing α) (a : α) :
    ((packing.add size width a).groups = packing.groups ++ [[a]] ∧
      (packing.current = [] ∨ width < breadth size packing.current + 1 + size a)) ∨
    (packing.current ≠ [] ∧ breadth size packing.current + 1 + size a ≤ width ∧
      (packing.add size width a).groups = packing.closed ++ [packing.current ++ [a]]) := by
  unfold add
  split_ifs with hfull
  · refine .inl ⟨?_, .inr hfull.2⟩
    rw [groups_of_current (List.cons_ne_nil a [])]
    rfl
  · rw [groups_of_current (by simp)]
    by_cases hcurrent : packing.current = []
    · refine .inl ⟨?_, .inl hcurrent⟩
      rw [groups_of_nil hcurrent, hcurrent, List.nil_append]
    · exact .inr ⟨hcurrent, not_lt.mp fun hlong ↦ hfull ⟨hcurrent, hlong⟩, rfl⟩

/-- After a piece, some group is being filled. -/
theorem Packing.current_add (packing : Packing α) (a : α) : (packing.add size width a).current ≠ [] := by
  unfold add
  split_ifs
  · exact List.cons_ne_nil a []
  · simp

/-- A group is closed only for the next one. -/
theorem Packing.closed_of_nil {pieces : List α} (h : (Packing.empty.addAll size width pieces).current = []) :
    (Packing.empty.addAll size width pieces).closed = [] := by
  induction pieces using List.reverseRecOn with
  | nil => rfl
  | append_singleton pieces a _ =>
    rw [addAll, List.foldl_append, List.foldl_cons, List.foldl_nil] at h
    exact absurd h (current_add _ a)

theorem pack_append_singleton (pieces : List α) (a : α) :
    pack size width (pieces ++ [a]) = ((Packing.empty.addAll size width pieces).add size width a).groups := by
  rw [pack, Packing.addAll, List.foldl_append, List.foldl_cons, List.foldl_nil, Packing.addAll]

theorem flatten_pack (pieces : List α) : (pack size width pieces).flatten = pieces := by
  induction pieces using List.reverseRecOn with
  | nil => rfl
  | append_singleton pieces a ih =>
    rw [pack_append_singleton]
    rcases Packing.groups_add size width (Packing.empty.addAll size width pieces) a with
      ⟨hgroups, -⟩ | ⟨hcurrent, -, hgroups⟩
    · rw [hgroups, List.flatten_append]
      change (pack size width pieces).flatten ++ _ = _
      rw [ih]
      rfl
    · rw [pack, Packing.groups_of_current hcurrent, List.flatten_append, List.flatten_singleton] at ih
      rw [hgroups, List.flatten_append, List.flatten_singleton, ← List.append_assoc, ih]

/-- Assumes: no piece is wider than a group may be. -/
theorem packed_pack {pieces : List α} (hpieces : ∀ a ∈ pieces, size a ≤ width) :
    Packed size width (pack size width pieces) := by
  induction pieces using List.reverseRecOn with
  | nil => exact ⟨by simp [pack, Packing.addAll, Packing.groups, Packing.close, Packing.empty],
      by simp [pack, Packing.addAll, Packing.groups, Packing.close, Packing.empty],
      by simp [pack, Packing.addAll, Packing.groups, Packing.close, Packing.empty]⟩
  | append_singleton pieces a ih =>
    have hbefore := ih fun b hb ↦ hpieces b (List.mem_append_left _ hb)
    have ha : size a ≤ width := hpieces a (by simp)
    rw [pack_append_singleton]
    generalize hpacking : Packing.empty.addAll size width pieces = packing at *
    have hstart : packing.current = [] → packing.closed = [] := by
      rw [← hpacking]
      exact Packing.closed_of_nil
    have hgroups : pack size width pieces = packing.groups := by rw [pack, hpacking]
    rw [hgroups] at hbefore
    rcases Packing.groups_add size width packing a with
      ⟨hadd, hfull⟩ | ⟨hcurrent, hfits, hadd⟩
    · rw [hadd]
      refine ⟨fun group hgroup ↦ ?_, fun group hgroup ↦ ?_, ?_⟩
      · rcases List.mem_append.mp hgroup with hgroup | hgroup
        · exact hbefore.nonempty group hgroup
        · simp [List.mem_singleton.mp hgroup]
      · rcases List.mem_append.mp hgroup with hgroup | hgroup
        · exact hbefore.fits group hgroup
        · simpa [List.mem_singleton.mp hgroup, breadth] using ha
      · refine List.isChain_append.mpr ⟨hbefore.greedy, List.isChain_singleton _, fun last hlast next hnext b hb ↦ ?_⟩
        obtain rfl : [a] = next := by simpa using hnext
        obtain rfl : a = b := by simpa using hb
        by_cases hcurrent : packing.current = []
        · rw [Packing.groups_of_nil hcurrent, hstart hcurrent] at hlast
          cases hlast
        · obtain rfl : packing.current = last := by
            simpa [Packing.groups_of_current hcurrent] using hlast
          exact hfull.resolve_left hcurrent
    · rw [hadd]
      rw [Packing.groups_of_current hcurrent] at hbefore
      obtain ⟨hclosed, -, hlink⟩ := List.isChain_append.mp hbefore.greedy
      refine ⟨fun group hgroup ↦ ?_, fun group hgroup ↦ ?_, ?_⟩
      · rcases List.mem_append.mp hgroup with hgroup | hgroup
        · exact hbefore.nonempty group (List.mem_append_left _ hgroup)
        · simp [List.mem_singleton.mp hgroup]
      · rcases List.mem_append.mp hgroup with hgroup | hgroup
        · exact hbefore.fits group (List.mem_append_left _ hgroup)
        · rw [List.mem_singleton.mp hgroup, breadth_append_singleton hcurrent]
          exact hfits
      · refine List.isChain_append.mpr ⟨hclosed, List.isChain_singleton _, fun last hlast next hnext b hb ↦ ?_⟩
        obtain rfl : packing.current ++ [a] = next := by simpa using hnext
        rw [List.head?_append_of_ne_nil _ hcurrent] at hb
        exact hlink last hlast packing.current rfl b hb

theorem Packing.mem_current_addAll {pieces : List α} {packing : Packing α}
    (h : a ∈ (packing.addAll size width pieces).current) : a ∈ packing.current ∨ a ∈ pieces := by
  induction pieces generalizing packing with
  | nil => exact .inl h
  | cons b rest ih =>
    rcases @ih (packing.add size width b) h with hadded | hrest
    · unfold add at hadded
      split_ifs at hadded
      · exact .inr (List.mem_singleton.mp hadded ▸ List.mem_cons_self)
      · rcases List.mem_append.mp hadded with hbefore | hb
        · exact .inl hbefore
        · exact .inr (List.mem_singleton.mp hb ▸ List.mem_cons_self)
    · exact .inr (List.mem_cons_of_mem b hrest)

/-! ### Pieces as wide as a group -/

/-- A piece that is as wide as a group may be gets a group of its own. -/
theorem Packing.add_of_le_size (hwidth : width ≤ size a) : packing.add size width a = ⟨packing.groups, [a]⟩ := by
  unfold add
  split_ifs with hfull
  · rfl
  · have hcurrent : packing.current = [] := by
      by_contra hcurrent
      exact hfull ⟨hcurrent, by omega⟩
    rw [groups_of_nil hcurrent, hcurrent, List.nil_append]

/-- Nothing is added to a group that one piece fills. -/
theorem Packing.add_after_le_size {closed : List (List α)} {b : α} (hwidth : width ≤ size a) :
    (Packing.mk closed [a]).add size width b = ⟨closed ++ [[a]], [b]⟩ := by
  have hfull : (Packing.mk closed [a]).current ≠ [] ∧
      width < breadth size (Packing.mk closed [a]).current + 1 + size b := by
    refine ⟨List.cons_ne_nil a [], ?_⟩
    simp only [breadth, List.map_singleton, List.sum_singleton, List.length_singleton]
    omega
  rw [add, if_pos hfull]
  rfl

/-- Assumes: some pieces, each as wide as a group may be. What comes after them begins a group. -/
theorem Packing.addAll_append_singleton {pieces : List α} (hpieces : pieces ≠ []) (hwidth : ∀ a ∈ pieces, width ≤ size a)
    (packing : Packing α) (b : α) :
    packing.addAll size width (pieces ++ [b]) = ⟨packing.groups ++ pieces.map ([·]), [b]⟩ := by
  induction pieces generalizing packing with
  | nil => exact absurd rfl hpieces
  | cons a rest ih =>
    have ha : width ≤ size a := hwidth a List.mem_cons_self
    have hstep : packing.addAll size width (a :: rest ++ [b]) =
        (Packing.mk packing.groups [a]).addAll size width (rest ++ [b]) := by
      rw [addAll, List.cons_append, List.foldl_cons, add_of_le_size ha, addAll]
    rw [hstep]
    by_cases hrest : rest = []
    · rw [hrest, List.nil_append, addAll, List.foldl_cons, List.foldl_nil, add_after_le_size ha]
      rfl
    · rw [ih hrest fun c hc ↦ hwidth c (List.mem_cons_of_mem a hc), groups_of_current (List.cons_ne_nil a []),
        List.append_assoc]
      rfl

end Pack

end Taskologic.Library
