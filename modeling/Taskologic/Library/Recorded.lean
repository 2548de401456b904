import Taskologic.Library.Interleaving

/-!
# Sections that remember

A state can be kept together with the states before it (`Recorded`), and a section run on it writes down the one it
starts from (`Semantics.recorded`). What a request has seen in an earlier section is then a statement about the states
on record (`Recorded.Saw`), and stays true whatever runs in between (`Recorded.Saw.later`).

A request that keeps to a condition on recorded states as long as the record only grows does so in every interleaving,
and the record is then the log of what has run before (`Pool.eachAfter_of_meets`).
-/

set_option autoImplicit false
set_option relaxedAutoImplicit false

namespace Taskologic.Library

/-- A state, and those before it, the oldest first. -/
structure Recorded (σ : Type) where
  past : List σ
  now : σ

namespace Recorded

variable {σ : Type}

def states (t : Recorded σ) : List σ := t.past ++ [t.now]

/-- A state with nothing before it. -/
def fresh (s : σ) : Recorded σ := ⟨[], s⟩

/-- The state changes. -/
def next (t : Recorded σ) (s : σ) : Recorded σ := ⟨t.states, s⟩

/-- The record has only grown. -/
def Since (t t' : Recorded σ) : Prop := t.states <+: t'.states

instance : Std.Refl (Since (σ := σ)) := ⟨fun _ ↦ List.prefix_rfl⟩

instance : IsTrans (Recorded σ) Since := ⟨fun _ _ _ ↦ List.IsPrefix.trans⟩

theorem since_next (t : Recorded σ) (s : σ) : t.Since (t.next s) := List.prefix_append _ _

/-- It was so at some time. -/
def Saw (t : Recorded σ) (φ : σ → Prop) : Prop := ∃ s ∈ t.states, φ s

variable {t t' : Recorded σ} {φ ψ : σ → Prop}

theorem mem_states_now (t : Recorded σ) : t.now ∈ t.states := List.mem_append_right _ List.mem_cons_self

theorem Saw.now (h : φ t.now) : t.Saw φ := ⟨t.now, t.mem_states_now, h⟩

theorem Saw.later (h : t.Saw φ) (hlater : t.Since t') : t'.Saw φ := by
  obtain ⟨s, hs, hφ⟩ := h
  exact ⟨s, hlater.subset hs, hφ⟩

theorem Saw.mono (h : t.Saw φ) (hsub : ∀ s, φ s → ψ s) : t.Saw ψ := by
  obtain ⟨s, hs, hφ⟩ := h
  exact ⟨s, hs, hsub s hφ⟩

end Recorded

section Semantics

variable {S : Type → Type} {ε ι σ ρ : Type}

/-- The same sections, which write down the states they start from. -/
def Semantics.recorded (sem : Semantics S ε ι σ) : Semantics S ε ι (Recorded σ) where
  run body input t := ((sem.run body input t.now).1, t.next (sem.run body input t.now).2)

/-- The record has grown by the time a request has answered. -/
theorem Thread.Meets.since {sem : Semantics S ε ι σ} {P : (α : Type) → S α → Recorded σ → Prop}
    {Q : ρ → Recorded σ → Prop} {thread : Thread S ε ρ} {t t' : Recorded σ}
    (h : thread.Meets sem.recorded Recorded.Since P Q t') (hlater : t.Since t') :
    thread.Meets sem.recorded Recorded.Since P (fun a t'' ↦ Q a t'' ∧ t.Since t'') t' := by
  induction thread generalizing t' with
  | done answer => exact fun a ha ↦ ⟨h a ha, hlater⟩
  | lock body next ih =>
    refine fun t'' hthen ↦ ⟨(h t'' hthen).1, fun input ↦ ih _ ((h t'' hthen).2 input) ?_⟩
    exact hlater.trans (hthen.trans (t''.since_next _))

end Semantics

/-! ### In the light of what ran before -/

namespace Pool

variable {S : Type → Type} {ε ι σ ρ : Type} {sem : Semantics S ε ι σ}

/-- Each entry of a log is as it should be in the light of those before it. -/
def EachAfter {η : Type*} (P : List η → η → Prop) (log : List η) : Prop :=
  ∀ past h rest, log = past ++ h :: rest → P past h

/-- A log is what its entries make of the empty one. -/
theorem foldl_concat {η : Type*} (past log : List η) : log.foldl (fun past h ↦ past ++ [h]) past = past ++ log := by
  induction log generalizing past with
  | nil => simp
  | cons first rest ih => simp [ih]

theorem eachAfter_of_along {η : Type*} {P : List η → η → Prop} {log : List η}
    (h : Along (fun past h ↦ past ++ [h]) P [] log) : EachAfter P log := by
  rintro past entry rest rfl
  have hthen := (along_append.mp h).2.1
  rwa [foldl_concat, List.nil_append] at hthen

theorem EachAfter.along {η : Type*} {P : List η → η → Prop} {log : List η} (h : EachAfter P log) :
    Along (fun past h ↦ past ++ [h]) P [] log := by
  have hall (past log : List η) (h : ∀ more entry rest, log = more ++ entry :: rest → P (past ++ more) entry) :
      Along (fun past h ↦ past ++ [h]) P past log := by
    induction log generalizing past with
    | nil => trivial
    | cons first rest ih =>
      refine ⟨by simpa using h [] first rest rfl, ih _ fun more entry others hrest ↦ ?_⟩
      simpa using h (first :: more) entry others (by rw [hrest, List.cons_append])
  exact hall [] log fun more entry rest hlog ↦ h more entry rest hlog

theorem EachAfter.mono {η : Type*} {P Q : List η → η → Prop} {log : List η} (h : EachAfter P log)
    (hsub : ∀ past entry, P past entry → Q past entry) : EachAfter Q log :=
  fun past entry rest hlog ↦ hsub past entry (h past entry rest hlog)

/-- What holds of the log so far and the state, and is kept by every section that is as it should be, holds in the
end. -/
theorem Trail.keepsAfter {P : List (Happening S ι σ) → Happening S ι σ → Prop}
    {J : List (Happening S ι σ) → σ → Prop} {s s' : σ} {log : List (Happening S ι σ)} (h : Trail sem s log s')
    (hlog : EachAfter P log)
    (hkeep : ∀ past h, P past h → J past h.before → J (past ++ [h]) (h.after sem)) (hs : J [] s) : J log s' := by
  have hlast := h.keeps hlog.along hkeep hs
  rwa [foldl_concat, List.nil_append] at hlast

/-- What every request keeps to as long as the record only grows holds of each section that runs, where the record is
what has run before it. -/
theorem eachAfter_of_meets {P : (α : Type) → S α → Recorded σ → Prop} {Q : ρ → Recorded σ → Prop}
    (hstable : ∀ a t t', t.Since t' → Q a t → Q a t') {pool : Pool S ε σ ρ} (hthreads : ∀ thread ∈ pool.threads,
      thread.Meets sem.recorded Recorded.Since P Q (Recorded.fresh pool.state)) (schedule : List (ℕ × ι)) :
    EachAfter (fun past h ↦ P h.α h.body ⟨past.map Happening.before, h.before⟩) (pool.log sem schedule) := by
  suffices h : ∀ past : List (Happening S ι σ), (∀ thread ∈ pool.threads,
      thread.Meets sem.recorded Recorded.Since P Q ⟨past.map Happening.before, pool.state⟩) →
        Along (fun past h ↦ past ++ [h]) (fun past h ↦ P h.α h.body ⟨past.map Happening.before, h.before⟩) past
          (pool.log sem schedule) from eachAfter_of_along (h [] hthreads)
  clear hthreads
  intro past hthreads
  induction schedule generalizing pool past with
  | nil => trivial
  | cons turn rest ih =>
    obtain ⟨i, input⟩ := turn
    rw [Pool.log]
    cases hthread : pool.threads[i]? with
    | none =>
      have hidle : pool.turn sem i input = pool := by rw [Pool.turn, hthread]
      rw [hidle]
      exact ih past hthreads
    | some thread =>
      cases thread with
      | done answer =>
        have hidle : pool.turn sem i input = pool := by rw [Pool.turn, hthread]
        rw [hidle]
        exact ih past hthreads
      | lock body next =>
        obtain ⟨hnow, hgoesOn⟩ := hthreads _ (List.mem_of_getElem? hthread) _ List.prefix_rfl
        have hturn : pool.turn sem i input = ⟨(sem.run body input pool.state).2,
            pool.threads.set i (next (sem.run body input pool.state).1)⟩ := by
          rw [Pool.turn, hthread]
        rw [hturn]
        refine ⟨hnow, ih _ fun thread hmem ↦ ?_⟩
        rw [List.map_append, List.map_singleton]
        rcases List.mem_or_eq_of_mem_set hmem with hother | rfl
        · exact (hthreads thread hother).later hstable (Recorded.since_next ⟨_, pool.state⟩ _)
        · exact hgoesOn input

end Pool

end Taskologic.Library
