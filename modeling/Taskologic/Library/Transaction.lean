import Mathlib.Tactic

/-!
# Transactions

A transaction reads a state, may change it and may fail; one that fails leaves no trace, since its
last state is not kept. `Tx` is such a computation, with its own primitives `read`, `write` and
`fail`. What one that succeeded did is read off part by part (`bind_eq_ok`), and a relation between
the states before and after that is a preorder holds of a sequence when it holds of its parts
(`Within.bind`, `Within.each`). What only reads stays within every reflexive relation.

`Leads` is a rule of pre- and postconditions: from a state with a property the transaction, when it
succeeds, leads to a state with another. `Runs` is the same for one state, and says that it succeeds.
`Spares` is about one error: from a state with a property the transaction does not fail with it.
-/

set_option autoImplicit false
set_option relaxedAutoImplicit false

namespace Taskologic.Library

variable {σ ε : Type}

/-- A computation that reads and changes a state and may fail. -/
def Tx (σ ε α : Type) : Type := σ → Except ε (α × σ)

namespace Tx

variable {α β : Type}

instance : Monad (Tx σ ε) where
  pure a s := .ok (a, s)
  bind first next s :=
    match first s with
    | .ok (a, s') => next a s'
    | .error error => .error error

/-- What a function of the state says. -/
def read (f : σ → α) : Tx σ ε α := fun s ↦ .ok (f s, s)

/-- Changes the state. -/
def write (f : σ → σ) : Tx σ ε Unit := fun s ↦ .ok ((), f s)

def fail (error : ε) : Tx σ ε α := fun _ ↦ .error error

/-- The value that is there, or an error. -/
def require (value : Option α) (error : ε) : Tx σ ε α := fun s ↦
  match value with
  | some a => .ok (a, s)
  | none => .error error

/-- A computation that looks at no state. -/
def lift (value : Except ε α) : Tx σ ε α := fun s ↦
  match value with
  | .ok a => .ok (a, s)
  | .error error => .error error

/-- One check, with the error it gives. -/
def check (p : Prop) [Decidable p] (error : ε) : Tx σ ε Unit := fun s ↦
  if p then .ok ((), s) else .error error

/-- The same computation, with another name for what went wrong. -/
def mapError {δ : Type} (f : ε → δ) (tx : Tx σ ε α) : Tx σ δ α := fun s ↦ (tx s).mapError f

/-- The same for every entry of a list, in order, with the answers. -/
def each (f : α → Tx σ ε β) : List α → Tx σ ε (List β)
  | [] => pure []
  | a :: rest => do
    let b ← f a
    let later ← each f rest
    pure (b :: later)

/-! ### What a transaction did -/

section Inversion

variable {s s' : σ} {a : α} {b : β} {error : ε}

@[simp] theorem pure_eq_ok {r : α × σ} : (pure a : Tx σ ε α) s = .ok r ↔ (a, s) = r := by
  simp [pure]

@[simp] theorem bind_eq_ok {first : Tx σ ε α} {next : α → Tx σ ε β} {r : β × σ} :
    (first >>= next) s = .ok r ↔ ∃ a s', first s = .ok (a, s') ∧ next a s' = .ok r := by
  simp only [bind]
  cases hfirst : first s with
  | error _ => simp
  | ok pair => simp [Prod.ext_iff]

@[simp] theorem read_eq_ok {f : σ → α} {r : α × σ} :
    (read f : Tx σ ε α) s = .ok r ↔ (f s, s) = r := by
  simp [read]

@[simp] theorem write_eq_ok {f : σ → σ} {r : Unit × σ} :
    (write f : Tx σ ε Unit) s = .ok r ↔ ((), f s) = r := by
  simp [write]

@[simp] theorem fail_eq_ok {r : α × σ} : (fail error : Tx σ ε α) s = .ok r ↔ False := by
  simp [fail]

@[simp] theorem require_eq_ok {value : Option α} {r : α × σ} :
    (require value error : Tx σ ε α) s = .ok r ↔ ∃ a, value = some a ∧ (a, s) = r := by
  cases value <;> simp [require]

@[simp] theorem lift_eq_ok {value : Except ε α} {r : α × σ} :
    (lift value : Tx σ ε α) s = .ok r ↔ ∃ a, value = .ok a ∧ (a, s) = r := by
  cases value <;> simp [lift]

@[simp] theorem check_eq_ok {p : Prop} [Decidable p] {r : Unit × σ} :
    (check p error : Tx σ ε Unit) s = .ok r ↔ p ∧ ((), s) = r := by
  by_cases hp : p <;> simp [check, hp]

@[simp] theorem mapError_eq_ok {δ : Type} {f : ε → δ} {tx : Tx σ ε α} {r : α × σ} :
    mapError f tx s = .ok r ↔ tx s = .ok r := by
  unfold mapError
  cases tx s <;> simp [Except.mapError]

@[simp] theorem each_nil {f : α → Tx σ ε β} : each f [] = pure [] := rfl

/-- The first entry, then the rest. -/
theorem each_cons_eq_ok {f : α → Tx σ ε β} {rest : List α} {r : List β × σ} :
    each f (a :: rest) s = .ok r ↔ ∃ b s' later s'', f a s = .ok (b, s') ∧
      each f rest s' = .ok (later, s'') ∧ (b :: later, s'') = r := by
  simp only [each, bind_eq_ok, pure_eq_ok]
  exact ⟨fun ⟨b, s', hf, later, s'', hrest, hr⟩ ↦ ⟨b, s', later, s'', hf, hrest, hr⟩,
    fun ⟨b, s', later, s'', hf, hrest, hr⟩ ↦ ⟨b, s', hf, later, s'', hrest, hr⟩⟩

end Inversion

/-! ### Relations between the states before and after -/

/-- Whenever the transaction succeeds, the states before and after are so related. -/
def Within (R : σ → σ → Prop) (tx : Tx σ ε α) : Prop :=
  ∀ s a s', tx s = .ok (a, s') → R s s'

section Within

variable {R : σ → σ → Prop}

theorem Within.of_eq [Std.Refl R] {tx : Tx σ ε α} (h : ∀ s a s', tx s = .ok (a, s') → s' = s) :
    Within R tx := by
  intro s a s' hrun
  rw [h s a s' hrun]
  exact refl_of R s

theorem Within.pure [Std.Refl R] (a : α) : Within R (pure a : Tx σ ε α) := by
  refine .of_eq fun s b s' h ↦ ?_
  obtain ⟨-, rfl⟩ := Prod.ext_iff.mp (pure_eq_ok.mp h)
  rfl

theorem Within.read [Std.Refl R] (f : σ → α) : Within R (read f : Tx σ ε α) := by
  refine .of_eq fun s b s' h ↦ ?_
  obtain ⟨-, rfl⟩ := Prod.ext_iff.mp (read_eq_ok.mp h)
  rfl

theorem Within.write {f : σ → σ} (h : ∀ s, R s (f s)) : Within R (write f : Tx σ ε Unit) := by
  intro s a s' hrun
  obtain ⟨-, rfl⟩ := Prod.ext_iff.mp (write_eq_ok.mp hrun)
  exact h s

theorem Within.fail (error : ε) : Within R (fail error : Tx σ ε α) :=
  fun _ _ _ h ↦ (fail_eq_ok.mp h).elim

theorem Within.require [Std.Refl R] (value : Option α) (error : ε) :
    Within R (require value error : Tx σ ε α) := by
  refine .of_eq fun s b s' h ↦ ?_
  obtain ⟨a, -, hr⟩ := require_eq_ok.mp h
  exact (Prod.ext_iff.mp hr).2.symm

theorem Within.lift [Std.Refl R] (value : Except ε α) : Within R (lift value : Tx σ ε α) := by
  refine .of_eq fun s b s' h ↦ ?_
  obtain ⟨a, -, hr⟩ := lift_eq_ok.mp h
  exact (Prod.ext_iff.mp hr).2.symm

theorem Within.check [Std.Refl R] (p : Prop) [Decidable p] (error : ε) :
    Within R (check p error : Tx σ ε Unit) := by
  refine .of_eq fun s b s' h ↦ ?_
  exact (Prod.ext_iff.mp (check_eq_ok.mp h).2).2.symm

theorem Within.bind [IsTrans σ R] {first : Tx σ ε α} {next : α → Tx σ ε β}
    (hfirst : Within R first) (hnext : ∀ a, Within R (next a)) : Within R (first >>= next) := by
  intro s b s'' h
  obtain ⟨a, s', hone, htwo⟩ := bind_eq_ok.mp h
  exact IsTrans.trans _ _ _ (hfirst s a s' hone) (hnext a s' b s'' htwo)

theorem Within.each [Std.Refl R] [IsTrans σ R] {f : α → Tx σ ε β} {entries : List α}
    (h : ∀ a ∈ entries, Within R (f a)) : Within R (each f entries) := by
  induction entries with
  | nil => exact .pure []
  | cons a rest ih =>
    refine .bind (h a List.mem_cons_self) fun b ↦ ?_
    exact .bind (ih fun c hc ↦ h c (List.mem_cons_of_mem _ hc)) fun _ ↦ .pure _

theorem Within.ite {p : Prop} [Decidable p] {yes no : Tx σ ε α} (hyes : p → Within R yes)
    (hno : ¬ p → Within R no) : Within R (if p then yes else no) := by
  split_ifs with hp
  · exact hyes hp
  · exact hno hp

theorem Within.mapError {δ : Type} (f : ε → δ) {tx : Tx σ ε α} (h : Within R tx) : Within R (mapError f tx) :=
  fun s a s' hrun ↦ h s a s' (mapError_eq_ok.mp hrun)

theorem Within.mono {Q : σ → σ → Prop} {tx : Tx σ ε α} (h : Within R tx)
    (hsub : ∀ s s', R s s' → Q s s') : Within Q tx :=
  fun s a s' hrun ↦ hsub _ _ (h s a s' hrun)

end Within

/-- The transaction leaves the state as it was. -/
abbrev Reads (tx : Tx σ ε α) : Prop := Within Eq tx

theorem Reads.within {R : σ → σ → Prop} [Std.Refl R] {tx : Tx σ ε α} (h : Reads tx) : Within R tx :=
  .of_eq fun s a s' hrun ↦ (h s a s' hrun).symm

/-- Before and after, a part of the state is the same. -/
def Keeps {β : Type} (part : σ → β) (s s' : σ) : Prop := part s' = part s

instance {β : Type} (part : σ → β) : Std.Refl (Keeps part) := ⟨fun _ ↦ rfl⟩

instance {β : Type} (part : σ → β) : IsTrans σ (Keeps part) :=
  ⟨fun _ _ _ hone htwo ↦ Eq.trans (b := part _) htwo hone⟩

/-! ### Pre- and postconditions -/

/-- From a state with a property the transaction, when it succeeds, leads to a value and a state with
another. -/
def Leads (P : σ → Prop) (tx : Tx σ ε α) (Q : α → σ → Prop) : Prop :=
  ∀ s a s', P s → tx s = .ok (a, s') → Q a s'

section Leads

variable {P : σ → Prop}

theorem Leads.bind {M : α → σ → Prop} {Q : β → σ → Prop} {first : Tx σ ε α}
    {next : α → Tx σ ε β} (hfirst : Leads P first M) (hnext : ∀ a, Leads (M a) (next a) Q) :
    Leads P (first >>= next) Q := by
  intro s b s'' hs h
  obtain ⟨a, s', hone, htwo⟩ := bind_eq_ok.mp h
  exact hnext a s' b s'' (hfirst s a s' hs hone) htwo

/-- What every entry keeps, the whole list keeps. -/
theorem Leads.each {f : α → Tx σ ε β} {entries : List α}
    (h : ∀ a ∈ entries, Leads P (f a) fun _ ↦ P) : Leads P (each f entries) fun _ ↦ P := by
  induction entries with
  | nil =>
    intro s b s' hs hrun
    obtain ⟨-, rfl⟩ := Prod.ext_iff.mp (pure_eq_ok.mp hrun)
    exact hs
  | cons a rest ih =>
    intro s b s' hs hrun
    obtain ⟨_, _, _, _, hone, htwo, hr⟩ := each_cons_eq_ok.mp hrun
    obtain ⟨-, rfl⟩ := Prod.ext_iff.mp hr
    exact ih (fun c hc ↦ h c (List.mem_cons_of_mem _ hc)) _ _ _
      (h a List.mem_cons_self _ _ _ hs hone) htwo

/-- What every entry keeps and answers, the whole list keeps and answers, when the answers of the earlier
entries stand. -/
theorem Leads.each_all {G : β → σ → Prop} {f : α → Tx σ ε β} {entries : List α}
    (h : ∀ a ∈ entries, Leads P (f a) fun b s ↦ G b s ∧ P s)
    (hstands : ∀ a ∈ entries, ∀ b, Leads (fun s ↦ G b s ∧ P s) (f a) fun _ s ↦ G b s) :
    Leads P (Tx.each f entries) fun bs s ↦ (∀ b ∈ bs, G b s) ∧ P s := by
  induction entries with
  | nil =>
    intro s bs s' hs hrun
    obtain ⟨rfl, rfl⟩ := Prod.ext_iff.mp (pure_eq_ok.mp hrun)
    exact ⟨fun _ hb ↦ (List.not_mem_nil hb).elim, hs⟩
  | cons a rest ih =>
    intro s bs s' hs hrun
    obtain ⟨b, s₁, later, s₂, hone, htwo, hr⟩ := each_cons_eq_ok.mp hrun
    obtain ⟨rfl, rfl⟩ := Prod.ext_iff.mp hr
    have hfirst := h a List.mem_cons_self _ _ _ hs hone
    obtain ⟨hlater, hs₂⟩ := ih (fun c hc ↦ h c (List.mem_cons_of_mem _ hc))
      (fun c hc ↦ hstands c (List.mem_cons_of_mem _ hc)) _ _ _ hfirst.2 htwo
    have hboth : Leads (fun s ↦ G b s ∧ P s) (Tx.each f rest) fun _ s ↦ G b s ∧ P s :=
      .each fun c hc s d s' hs hrun ↦
        ⟨hstands c (List.mem_cons_of_mem _ hc) b s d s' hs hrun,
          (h c (List.mem_cons_of_mem _ hc) s d s' hs.2 hrun).2⟩
    exact ⟨List.forall_mem_cons.mpr ⟨(hboth _ _ _ hfirst htwo).1, hlater⟩, hs₂⟩

end Leads

/-! ### Total correctness -/

/-- From this state the transaction succeeds, with a value and a state as they should be. -/
def Runs (tx : Tx σ ε α) (s : σ) (Q : α → σ → Prop) : Prop := ∃ a s', tx s = .ok (a, s') ∧ Q a s'

section Runs

variable {s : σ} {Q : α → σ → Prop}

theorem Runs.of_eq {tx : Tx σ ε α} {a : α} {s' : σ} (hrun : tx s = .ok (a, s')) (h : Q a s') :
    Runs tx s Q := ⟨a, s', hrun, h⟩

/-- A first part whose result is known. -/
theorem Runs.andThen {a : α} {s' : σ} {Q : β → σ → Prop} {first : Tx σ ε α} {next : α → Tx σ ε β}
    (hfirst : first s = .ok (a, s')) (hnext : Runs (next a) s' Q) : Runs (first >>= next) s Q := by
  obtain ⟨b, s'', htwo, hQ⟩ := hnext
  exact ⟨b, s'', bind_eq_ok.mpr ⟨a, s', hfirst, htwo⟩, hQ⟩

theorem Runs.bind {M : α → σ → Prop} {Q : β → σ → Prop} {first : Tx σ ε α} {next : α → Tx σ ε β}
    (hfirst : Runs first s M) (hnext : ∀ a s', M a s' → Runs (next a) s' Q) :
    Runs (first >>= next) s Q := by
  obtain ⟨a, s', hone, hM⟩ := hfirst
  exact .andThen hone (hnext a s' hM)

end Runs

section Succeeds

variable {s : σ}

end Succeeds

/-! ### Errors that are ruled out -/

/-- From a state with a property the transaction does not fail with this error. -/
def Spares (P : σ → Prop) (error : ε) (tx : Tx σ ε α) : Prop := ∀ s, P s → tx s ≠ .error error

section Spares

variable {P : σ → Prop} {error other : ε}

theorem Spares.pure (a : α) : Spares P error (pure a : Tx σ ε α) := fun _ _ h ↦ by cases h

theorem Spares.read (f : σ → α) : Spares P error (read f : Tx σ ε α) := fun _ _ h ↦ by cases h

theorem Spares.write (f : σ → σ) : Spares P error (write f : Tx σ ε Unit) := fun _ _ h ↦ by cases h

theorem Spares.fail (h : other ≠ error) : Spares P error (fail other : Tx σ ε α) :=
  fun _ _ hrun ↦ h (Except.error.inj hrun)

theorem Spares.require (value : Option α) (h : other ≠ error) :
    Spares P error (require value other : Tx σ ε α) := by
  intro s _ hrun
  cases value with
  | none => exact h (Except.error.inj hrun)
  | some a => cases hrun

theorem Spares.check (p : Prop) [Decidable p] (h : other ≠ error) :
    Spares P error (check p other : Tx σ ε Unit) := by
  intro s _ hrun
  simp only [Tx.check] at hrun
  split_ifs at hrun
  exact h (Except.error.inj hrun)

theorem Spares.lift {value : Except ε α} (h : value ≠ .error error) :
    Spares P error (lift value : Tx σ ε α) := by
  intro s _ hrun
  cases value with
  | ok a => cases hrun
  | error other => exact h (congrArg _ (Except.error.inj hrun))

theorem Spares.read_bind {f : σ → α} {next : α → Tx σ ε β} (h : ∀ s, P s → next (f s) s ≠ .error error) :
    Spares P error (Tx.read f >>= next) := h

theorem Spares.bind {first : Tx σ ε α} {next : α → Tx σ ε β} (hfirst : Spares P error first)
    (hkept : Leads P first fun _ ↦ P) (hnext : ∀ a, Spares P error (next a)) :
    Spares P error (first >>= next) := by
  intro s hs hrun
  simp only [Bind.bind] at hrun
  cases hone : first s with
  | error other =>
    rw [hone] at hrun
    exact hfirst s hs (hone.trans (congrArg _ (Except.error.inj hrun)))
  | ok pair =>
    rw [hone] at hrun
    exact hnext pair.1 pair.2 (hkept s pair.1 pair.2 hs hone) hrun

/-- From no state at all. -/
theorem Spares.andThen {first : Tx σ ε α} {next : α → Tx σ ε β} (hfirst : Spares (fun _ ↦ True) error first)
    (hnext : ∀ a, Spares (fun _ ↦ True) error (next a)) : Spares (fun _ ↦ True) error (first >>= next) :=
  .bind hfirst (fun _ _ _ _ _ ↦ trivial) hnext

theorem Spares.of_true {tx : Tx σ ε α} (h : Spares (fun _ ↦ True) error tx) : Spares P error tx :=
  fun s _ ↦ h s trivial

theorem Spares.each {f : α → Tx σ ε β} {entries : List α} (h : ∀ a ∈ entries, Spares P error (f a))
    (hkept : ∀ a ∈ entries, Leads P (f a) fun _ ↦ P) : Spares P error (each f entries) := by
  induction entries with
  | nil => exact .pure _
  | cons a rest ih =>
    refine .bind (h a List.mem_cons_self) (hkept a List.mem_cons_self) fun b ↦ ?_
    refine .bind (ih (fun c hc ↦ h c (List.mem_cons_of_mem _ hc)) fun c hc ↦ hkept c (List.mem_cons_of_mem _ hc))
      (.each fun c hc ↦ hkept c (List.mem_cons_of_mem _ hc)) fun _ ↦ .pure _

end Spares

end Tx

end Taskologic.Library
