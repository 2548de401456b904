import Mathlib.Tactic

/-!
# Sequences of checks

A validator is a sequence of checks, and its answer is the first error. `ensure` is a single check,
`checkAll` one check for every entry of a list. The lemmas read a validator that answered well as the
conjunction of its conditions (`ensure_eq_ok`, `checkAll_eq_ok`, `bind_eq_ok`, `mapError_eq_ok`), so
that no proof about validated data looks at the order of the checks. An error that none of its parts
gives a validator does not give (`bind_ne_error`, `checkAll_ne_error`).
-/

set_option autoImplicit false
set_option relaxedAutoImplicit false

namespace Taskologic.Library

universe u

variable {ε ε' : Type*} {α β : Type u}

/-- One check, with the error it gives. -/
def ensure (p : Prop) [Decidable p] (error : ε) : Except ε Unit :=
  if p then .ok () else .error error

/-- The same check for every entry of a list, in order. -/
def checkAll (check : α → Except ε Unit) : List α → Except ε Unit
  | [] => .ok ()
  | a :: rest => do
    check a
    checkAll check rest

@[simp] theorem ensure_eq_ok {p : Prop} [Decidable p] {error : ε} :
    ensure p error = .ok () ↔ p := by
  unfold ensure
  split_ifs with hp <;> simp [hp]

/-- A sequence answers well exactly when its first part does and the rest does on the value found. -/
theorem bind_eq_ok {first : Except ε α} {next : α → Except ε β} {result : β} :
    (first >>= next) = .ok result ↔ ∃ value, first = .ok value ∧ next value = .ok result := by
  cases first with
  | error _ => simp [bind, Except.bind]
  | ok value => simp [bind, Except.bind]

/-- Two checks in a row. -/
@[simp] theorem bind_unit_eq_ok {γ : Type} {first : Except ε Unit} {next : Except ε γ}
    {result : γ} :
    (first >>= fun _ ↦ next) = .ok result ↔ first = .ok () ∧ next = .ok result := by
  cases first <;> simp [bind, Except.bind]

@[simp] theorem mapError_eq_ok {f : ε → ε'} {first : Except ε α} {value : α} :
    first.mapError f = .ok value ↔ first = .ok value := by
  cases first <;> simp [Except.mapError]

@[simp] theorem checkAll_eq_ok {check : α → Except ε Unit} {entries : List α} :
    checkAll check entries = .ok () ↔ ∀ a ∈ entries, check a = .ok () := by
  induction entries with
  | nil => simp [checkAll]
  | cons a rest ih => simp [checkAll, ih]

/-- A list that is gone through well gives an answer for every entry, in order. -/
theorem forall₂_of_mapM {f : α → Except ε β} {entries : List α} {answers : List β}
    (h : entries.mapM f = .ok answers) : List.Forall₂ (fun a b ↦ f a = .ok b) entries answers := by
  induction entries generalizing answers with
  | nil =>
    rw [List.mapM_nil] at h
    cases h
    exact .nil
  | cons a rest ih =>
    rw [List.mapM_cons] at h
    obtain ⟨b, hb, h⟩ := bind_eq_ok.mp h
    obtain ⟨later, hlater, h⟩ := bind_eq_ok.mp h
    cases h
    exact .cons hb (ih hlater)

/-! ### Errors that are ruled out -/

section Errors

variable {error other : ε}

theorem ensure_ne_error {p : Prop} [Decidable p] (h : other ≠ error) : ensure p other ≠ .error error := by
  unfold ensure
  split_ifs
  · exact fun hrun ↦ by cases hrun
  · exact fun hrun ↦ h (Except.error.inj hrun)

theorem bind_ne_error {first : Except ε α} {next : α → Except ε β} (hfirst : first ≠ .error error)
    (hnext : ∀ a, next a ≠ .error error) : (first >>= next) ≠ .error error := by
  cases first with
  | error other => exact fun hrun ↦ hfirst (congrArg _ (Except.error.inj hrun))
  | ok a => exact hnext a

theorem checkAll_ne_error {check : α → Except ε Unit} {entries : List α}
    (h : ∀ a ∈ entries, check a ≠ .error error) : checkAll check entries ≠ .error error := by
  induction entries with
  | nil => exact fun hrun ↦ by cases hrun
  | cons a rest ih =>
    rw [List.forall_mem_cons] at h
    exact bind_ne_error h.1 fun _ ↦ ih h.2

end Errors

end Taskologic.Library
