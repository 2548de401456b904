import Mathlib.Tactic

/-!
# Results of a procedure that may fail or panic

A procedure of the modelled language either returns a value, returns an error its caller can look
at, or panics and never returns to its caller. `Outcome ε α` keeps the three apart. It is a monad in
the way the question mark operator reads it: the first error or panic ends the computation.

The inversion lemma `Outcome.bind_eq_ok` takes a successful computation apart one step at a time.
`Outcome.Yields` is partial correctness, a condition on the value of a computation that succeeds,
with one rule for each way to build a computation; a proof about a long chain of branches walks down
the chain with the rules and never unfolds the monad. `Outcome.steps` works down a list, and
`Outcome.Reaches` says which of its entries it comes to, and in which state.

Scope. Divergence is not an outcome: every procedure modelled with this type is total.
-/

set_option autoImplicit false
set_option relaxedAutoImplicit false

namespace Taskologic.Library

/-- Results of fallible procedures can be compared when errors and values can. -/
instance decidableEqExcept {ε α : Type*} [DecidableEq ε] [DecidableEq α] :
    DecidableEq (Except ε α)
  | .ok a, .ok b => decidable_of_iff (a = b) (by simp)
  | .error a, .error b => decidable_of_iff (a = b) (by simp)
  | .ok _, .error _ => isFalse (by simp)
  | .error _, .ok _ => isFalse (by simp)

/-- What calling a procedure came to: a value, an error of type `ε`, or a panic. -/
inductive Outcome (ε α : Type*) where
  | ok (value : α)
  | err (error : ε)
  | panicked
  deriving DecidableEq, Repr

namespace Outcome

variable {ε α β : Type*}

/-- Runs `next` on the value of a computation that succeeded. -/
def bind (computation : Outcome ε α) (next : α → Outcome ε β) : Outcome ε β :=
  match computation with
  | ok value => next value
  | err error => err error
  | panicked => panicked

/-- Turns an absent value into an error: the `ok_or_else` of an option. -/
def okOr (error : ε) : Option α → Outcome ε α
  | some value => ok value
  | none => err error

@[simp] theorem bind_ok (value : α) (next : α → Outcome ε β) : (ok value).bind next = next value :=
  rfl

@[simp] theorem bind_err (error : ε) (next : α → Outcome ε β) :
    (err error : Outcome ε α).bind next = err error := rfl

@[simp] theorem bind_panicked (next : α → Outcome ε β) :
    (panicked : Outcome ε α).bind next = panicked := rfl

@[simp] theorem okOr_some (error : ε) (value : α) : okOr error (some value) = ok value := rfl

@[simp] theorem okOr_none (error : ε) : okOr error (none : Option α) = err error := rfl

/-- A sequence succeeds exactly when its first part does and the rest does on the value found. -/
theorem bind_eq_ok {computation : Outcome ε α} {next : α → Outcome ε β} {result : β} :
    computation.bind next = ok result ↔
      ∃ value, computation = ok value ∧ next value = ok result := by
  cases computation <;> simp

/-- An option taken with an error in reserve succeeds exactly on its value. -/
theorem okOr_eq_ok {error : ε} {option : Option α} {value : α} :
    okOr error option = ok value ↔ option = some value := by
  cases option <;> simp

/-! ### Panics -/

/-- A computation that goes on to a value panics when its first part does. -/
theorem bind_ok_eq_panicked_iff {computation : Outcome ε α} {f : α → β} :
    (computation.bind fun value ↦ ok (f value)) = panicked ↔ computation = panicked := by
  cases computation <;> simp

theorem okOr_ne_panicked (error : ε) (option : Option α) : okOr error option ≠ panicked := by
  cases option <;> simp

/-- A computation without errors that goes on to computations without errors has none. -/
theorem bind_ne_err {computation : Outcome ε α} {next : α → Outcome ε β} {error : ε}
    (hfirst : computation ≠ err error) (hnext : ∀ value, next value ≠ err error) :
    computation.bind next ≠ err error := by
  cases computation with
  | ok value => exact hnext value
  | err first =>
    intro h
    cases h
    exact hfirst rfl
  | panicked => simp

/-- Both branches panic on the same condition. -/
theorem ite_eq_panicked_iff {p q : Prop} [Decidable p] {first second : Outcome ε α}
    (hfirst : p → (first = panicked ↔ q)) (hsecond : ¬ p → (second = panicked ↔ q)) :
    (if p then first else second) = panicked ↔ q := by
  by_cases hp : p
  · rw [if_pos hp]
    exact hfirst hp
  · rw [if_neg hp]
    exact hsecond hp

/-! ### Partial correctness -/

/-- If the computation succeeds, its value satisfies the condition. -/
def Yields (computation : Outcome ε α) (condition : α → Prop) : Prop :=
  ∀ value, computation = ok value → condition value

namespace Yields

variable {condition : α → Prop}

theorem ok {value : α} (h : condition value) : (Outcome.ok value : Outcome ε α).Yields condition := by
  intro result hresult
  cases hresult
  exact h

theorem err {error : ε} : (Outcome.err error : Outcome ε α).Yields condition := by
  intro result hresult
  cases hresult

theorem panicked : (Outcome.panicked : Outcome ε α).Yields condition := by
  intro result hresult
  cases hresult

theorem okOr {error : ε} {option : Option α} (h : ∀ value, option = some value → condition value) :
    (Outcome.okOr error option).Yields condition :=
  fun value hvalue ↦ h value (okOr_eq_ok.mp hvalue)

theorem ite {p : Prop} [Decidable p] {first second : Outcome ε α}
    (hfirst : p → first.Yields condition) (hsecond : ¬ p → second.Yields condition) :
    (if p then first else second).Yields condition := by
  by_cases hp : p
  · rw [if_pos hp]
    exact hfirst hp
  · rw [if_neg hp]
    exact hsecond hp

theorem bind {computation : Outcome ε α} {next : α → Outcome ε β} {goal : β → Prop}
    (hnext : ∀ value, computation = .ok value → (next value).Yields goal) :
    (computation.bind next).Yields goal := by
  intro result hresult
  obtain ⟨value, hvalue, hrest⟩ := bind_eq_ok.mp hresult
  exact hnext value hvalue result hrest

end Yields

/-! ### Working down a list -/

section Steps

variable {σ : Type*} (step : σ → α → Outcome ε σ) {state : σ} {entries : List α}

/-- One step for every entry of a list, each on the state the one before it left. -/
def steps : σ → List α → Outcome ε σ
  | state, [] => ok state
  | state, entry :: rest => (step state entry).bind fun next ↦ steps next rest

/-- Working down the list comes to `entry`, in the state `at_`. -/
def Reaches : σ → List α → σ → α → Prop
  | _, [], _, _ => False
  | state, first :: rest, at_, entry =>
    (at_ = state ∧ entry = first) ∨ ∃ next, step state first = ok next ∧ Reaches next rest at_ entry

variable {step}

/-- Working down the list comes to something: at its first entry, or later. -/
theorem exists_reaches_cons {first : α} {condition : σ → α → Prop} :
    (∃ at_ entry, Reaches step state (first :: entries) at_ entry ∧ condition at_ entry) ↔
      condition state first ∨ ∃ next, step state first = ok next ∧
        ∃ at_ entry, Reaches step next entries at_ entry ∧ condition at_ entry := by
  constructor
  · rintro ⟨at_, entry, ⟨rfl, rfl⟩ | ⟨next, hnext, hrest⟩, hcondition⟩
    · exact .inl hcondition
    · exact .inr ⟨next, hnext, at_, entry, hrest, hcondition⟩
  · rintro (hcondition | ⟨next, hnext, at_, entry, hrest, hcondition⟩)
    · exact ⟨state, first, .inl ⟨rfl, rfl⟩, hcondition⟩
    · exact ⟨at_, entry, .inr ⟨next, hnext, hrest⟩, hcondition⟩

/-- What is not a value ends the list where it comes up. -/
theorem steps_eq_iff {result : Outcome ε σ} (hresult : ∀ state, result ≠ ok state) :
    steps step state entries = result ↔
      ∃ at_ entry, Reaches step state entries at_ entry ∧ step at_ entry = result := by
  induction entries generalizing state with
  | nil => simpa [steps, Reaches] using (hresult state).symm
  | cons first rest ih =>
    rw [exists_reaches_cons, steps]
    cases hfirst : step state first with
    | ok next => simp [ih, (hresult next).symm]
    | err _ => simp
    | panicked => simp

/-- Where nothing panics on the way and it depends on the entry alone whether it is refused, the list is
refused with any of its entries. -/
theorem exists_steps_eq_err_iff {refused : α → Prop}
    (hrefused : ∀ at_ entry, (∃ error, step at_ entry = err error) ↔ refused entry)
    (hcalm : ∀ at_ entry, Reaches step state entries at_ entry → step at_ entry ≠ panicked) :
    (∃ error, steps step state entries = err error) ↔ ∃ entry ∈ entries, refused entry := by
  induction entries generalizing state with
  | nil => simp [steps]
  | cons first rest ih =>
    rw [List.exists_mem_cons_iff, ← hrefused state first]
    cases hfirst : step state first with
    | ok next =>
      have hrest : ∀ at_ entry, Reaches step next rest at_ entry → step at_ entry ≠ panicked :=
        fun at_ entry h ↦ hcalm at_ entry (.inr ⟨next, hfirst, h⟩)
      simp [steps, hfirst, ih hrest]
    | err error => simp [steps, hfirst]
    | panicked => exact absurd hfirst (hcalm state first (.inl ⟨rfl, rfl⟩))

end Steps

end Outcome

end Taskologic.Library
