import Mathlib.Tactic

/-!
# A search ahead

`firstWithin` looks for the first integer with a property, so many of them from one on and none after a
last one. Where the property recurs within that many, the search misses nothing
(`firstWithin_eq_some_iff`, `firstWithin_eq_none_iff`).
-/

set_option autoImplicit false
set_option relaxedAutoImplicit false

namespace Taskologic.Library

variable {hit : ℤ → Bool} {last start n : ℤ} {steps : ℕ}

/-- The first hit of so many integers. -/
def firstWithin (hit : ℤ → Bool) (last : ℤ) : ℕ → ℤ → Option ℤ
  | 0, _ => none
  | steps + 1, start =>
    if hit start then some start else if start < last then firstWithin hit last steps (start + 1) else none

/-- The hits from one integer on up to the last. -/
def hitsFrom (hit : ℤ → Bool) (last start : ℤ) : Set ℤ := {n | start ≤ n ∧ n ≤ last ∧ hit n = true}

/-- A hit so many integers on has another one before it. -/
def RecursWithin (hit : ℤ → Bool) (last start : ℤ) (steps : ℕ) : Prop :=
  ∀ n ∈ hitsFrom hit last start, start + steps ≤ n → ∃ m ∈ hitsFrom hit last start, m < n

theorem isLeast_of_firstWithin (hstart : start ≤ last) (h : firstWithin hit last steps start = some n) :
    IsLeast (hitsFrom hit last start) n := by
  induction steps generalizing start with
  | zero => cases h
  | succ steps ih =>
    simp only [firstWithin] at h
    split_ifs at h with hhit hlast
    · cases h
      exact ⟨⟨le_refl _, hstart, hhit⟩, fun m hm ↦ hm.1⟩
    · obtain ⟨⟨hlow, hhigh, hn⟩, hleast⟩ := ih (by omega) h
      refine ⟨⟨by omega, hhigh, hn⟩, fun m ⟨hm, hm', hmhit⟩ ↦ ?_⟩
      obtain rfl | hlt := eq_or_lt_of_le hm
      · exact absurd hmhit hhit
      · exact hleast ⟨by omega, hm', hmhit⟩

theorem le_of_firstWithin_eq_none (h : firstWithin hit last steps start = none)
    (hn : n ∈ hitsFrom hit last start) : start + steps ≤ n := by
  induction steps generalizing start with
  | zero => simpa using hn.1
  | succ steps ih =>
    simp only [firstWithin] at h
    obtain ⟨hlow, hhigh, hn⟩ := hn
    split_ifs at h with hhit hlast
    · have hne : start ≠ n := fun heq ↦ hhit (heq ▸ hn)
      have hle := ih h ⟨by omega, hhigh, hn⟩
      push_cast
      omega
    · have heq : start = n := by omega
      exact absurd hn (heq ▸ hhit)

theorem exists_isLeast_hitsFrom (hn : n ∈ hitsFrom hit last start) :
    ∃ least, IsLeast (hitsFrom hit last start) least := by
  obtain ⟨least, hmem, hleast⟩ :=
    Int.exists_least_of_bdd (P := (· ∈ hitsFrom hit last start)) ⟨start, fun m hm ↦ hm.1⟩ ⟨n, hn⟩
  exact ⟨least, hmem, fun m hm ↦ hleast m hm⟩

/-- A search as far as hits recur finds nothing only where there is nothing. -/
theorem firstWithin_eq_none_iff (hstart : start ≤ last) (hrecurs : RecursWithin hit last start steps) :
    firstWithin hit last steps start = none ↔ hitsFrom hit last start = ∅ := by
  constructor
  · intro hnone
    refine Set.eq_empty_of_forall_notMem fun n hn ↦ ?_
    obtain ⟨least, hmem, hleast⟩ := exists_isLeast_hitsFrom hn
    obtain ⟨m, hm, hlt⟩ := hrecurs least hmem (le_of_firstWithin_eq_none hnone hmem)
    exact absurd (hleast hm) (by omega)
  · intro hempty
    cases hfound : firstWithin hit last steps start with
    | none => rfl
    | some n => exact absurd (isLeast_of_firstWithin hstart hfound).1 (hempty ▸ Set.notMem_empty n)

/-- A search as far as hits recur finds the first of them. -/
theorem firstWithin_eq_some_iff (hstart : start ≤ last) (hrecurs : RecursWithin hit last start steps) :
    firstWithin hit last steps start = some n ↔ IsLeast (hitsFrom hit last start) n := by
  refine ⟨isLeast_of_firstWithin hstart, fun hleast ↦ ?_⟩
  cases hfound : firstWithin hit last steps start with
  | none =>
    rw [firstWithin_eq_none_iff hstart hrecurs] at hfound
    exact absurd hleast.1 (hfound ▸ Set.notMem_empty n)
  | some m => rw [(isLeast_of_firstWithin hstart hfound).unique hleast]

end Taskologic.Library
