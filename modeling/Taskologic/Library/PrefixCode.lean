import Mathlib.Data.List.Flatten
import Mathlib.Tactic

/-!
# Languages whose words say where they end

A writer spells a word, and a reader takes one word off the front of a stream. A word is `Clear` when the reader
finds it wherever it is written, whatever follows. `decode` takes words off a stream until nothing is left.

`decode_flatMap_iff` is the whole theory: a reader that never takes a word for itself that is not clear
(`Candid`) reads a sequence of words back exactly where all of them are clear.
-/

set_option autoImplicit false
set_option relaxedAutoImplicit false

namespace Taskologic.Library

variable {β γ : Type*} (write : γ → List β) (read : List β → Option (γ × List β))

/-- Takes words off a stream, at most so many. -/
def readWords : ℕ → List β → Option (List γ)
  | _, [] => some []
  | 0, _ :: _ => none
  | steps + 1, symbol :: rest =>
    match read (symbol :: rest) with
    | none => none
    | some (word, more) => (readWords steps more).map (word :: ·)

/-- The words of a stream, if it is made of words. -/
def decode (stream : List β) : Option (List γ) := readWords read stream.length stream

/-- The reader finds the word in front of anything. -/
def Clear (word : γ) : Prop := ∀ rest, read (write word ++ rest) = some (word, rest)

/-- The reader takes nothing for a word that is not clear, and no word for nothing. -/
structure Candid : Prop where
  clear : ∀ word rest more, read (write word ++ rest) = some (word, more) → Clear write read word
  progress : ∀ stream word more, read stream = some (word, more) → more.length < stream.length

variable {write read}

theorem Clear.write_ne_nil {word : γ} (h : Clear write read word) (hread : Candid write read) : write word ≠ [] := by
  intro hnil
  have hnothing := hread.progress _ _ _ (h [])
  simp [hnil] at hnothing

theorem readWords_flatMap {words : List γ} (hwords : ∀ word ∈ words, Clear write read word)
    (hread : Candid write read) {steps : ℕ} (hsteps : (words.flatMap write).length ≤ steps) :
    readWords read steps (words.flatMap write) = some words := by
  induction words generalizing steps with
  | nil => cases steps <;> rfl
  | cons word rest ih =>
    have hword := hwords word List.mem_cons_self
    obtain ⟨symbol, more, hmore⟩ := List.exists_cons_of_ne_nil (hword.write_ne_nil hread)
    have hrest := hword (rest.flatMap write)
    rw [List.flatMap_cons] at hsteps ⊢
    rw [hmore, List.cons_append] at hrest hsteps ⊢
    cases steps with
    | zero => simp at hsteps
    | succ steps =>
      have hlength : (rest.flatMap write).length ≤ steps := by
        simp only [List.length_cons, List.length_append] at hsteps
        omega
      simp only [readWords, hrest]
      rw [ih (fun other hother ↦ hwords other (List.mem_cons_of_mem _ hother)) hlength]
      rfl

theorem clear_of_readWords {words : List γ} (hread : Candid write read) {steps : ℕ}
    (h : readWords read steps (words.flatMap write) = some words) : ∀ word ∈ words, Clear write read word := by
  induction words generalizing steps with
  | nil => simp
  | cons word rest ih =>
    rw [List.flatMap_cons] at h
    cases hstream : write word ++ rest.flatMap write with
    | nil => simp [hstream, readWords] at h
    | cons symbol more =>
      rw [hstream] at h
      cases steps with
      | zero => simp [readWords] at h
      | succ steps =>
        rw [readWords, ← hstream] at h
        cases hfirst : read (write word ++ rest.flatMap write) with
        | none => simp [hfirst] at h
        | some pair =>
          obtain ⟨first, left⟩ := pair
          simp only [hfirst, Option.map_eq_some_iff, List.cons.injEq] at h
          obtain ⟨others, hothers, rfl, rfl⟩ := h
          have hclear := hread.clear _ _ _ hfirst
          have hleft : left = others.flatMap write := by
            rw [hclear] at hfirst
            simpa using hfirst.symm
          rw [hleft] at hothers
          exact List.forall_mem_cons.mpr ⟨hclear, ih hothers⟩

/-- A sequence of words is read back exactly where every one of them is clear. -/
theorem decode_flatMap_iff {words : List γ} (hread : Candid write read) :
    decode read (words.flatMap write) = some words ↔ ∀ word ∈ words, Clear write read word :=
  ⟨clear_of_readWords hread, fun h ↦ readWords_flatMap h hread (le_refl _)⟩

end Taskologic.Library
