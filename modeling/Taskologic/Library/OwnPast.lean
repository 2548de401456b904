import Taskologic.Library.Interleaving

/-!
# What a request has seen

A request goes by what its own earlier sections answered, however much others do in between. `Thread.Follows`
says that each section of a request is one its own past allows, whatever the states are the sections start
from. `Pool.logBy` is the log of a schedule with who ran each section, and in it every section is one that
the past of its own request allows: `Pool.follows_logBy`.
-/

set_option autoImplicit false
set_option relaxedAutoImplicit false

namespace Taskologic.Library

variable {S : Type → Type} {ε ι σ ρ ρ' : Type}

namespace Thread

/-- Each section the request has yet to run is allowed by what the request has seen by then, and so is its
answer. -/
def Follows (sem : Semantics S ε ι σ) (P : List (Pool.Happening S ι σ) → (α : Type) → S α → Prop)
    (Q : ρ → List (Pool.Happening S ι σ) → Prop) : Thread S ε ρ → List (Pool.Happening S ι σ) → Prop
  | .done answer, past => ∀ a, answer = .ok a → Q a past
  | .lock (α := α) body next, past => P past α body ∧
      ∀ input s, Follows sem P Q (next (sem.run body input s).1) (past ++ [⟨body, input, s⟩])

variable {sem : Semantics S ε ι σ} {P : List (Pool.Happening S ι σ) → (α : Type) → S α → Prop}
  {past : List (Pool.Happening S ι σ)}

theorem follows_pure {Q : ρ → List (Pool.Happening S ι σ) → Prop} {a : ρ} :
    (pure a : Thread S ε ρ).Follows sem P Q past ↔ Q a past := by
  simp [pure, Follows]

/-- One request after another, which sees more. -/
theorem Follows.bind {M : ρ → List (Pool.Happening S ι σ) → Prop}
    {Q : ρ' → List (Pool.Happening S ι σ) → Prop} {first : Thread S ε ρ} {next : ρ → Thread S ε ρ'}
    (hfirst : first.Follows sem P M past)
    (hnext : ∀ a later, M a (past ++ later) → (next a).Follows sem P Q (past ++ later)) :
    (first >>= next).Follows sem P Q past := by
  change (first.bind next).Follows sem P Q past
  induction first generalizing past with
  | done answer =>
    cases answer with
    | ok a =>
      have h := hnext a []
      rw [List.append_nil] at h
      exact h (hfirst a rfl)
    | error error => exact fun a ha ↦ nomatch ha
  | lock body rest ih =>
    refine ⟨hfirst.1, fun input s ↦ ih _ (hfirst.2 input s) fun a later ha ↦ ?_⟩
    rw [List.append_assoc] at ha ⊢
    exact hnext a _ ha

theorem follows_call {Q : ρ → List (Pool.Happening S ι σ) → Prop} {body : S ρ} (hbody : P past ρ body)
    (hQ : ∀ input s a, (sem.run body input s).1 = .ok a → Q a (past ++ [⟨body, input, s⟩])) :
    (call body : Thread S ε ρ).Follows sem P Q past := ⟨hbody, fun input s a ha ↦ hQ input s a ha⟩

theorem Follows.mono {Q Q' : ρ → List (Pool.Happening S ι σ) → Prop} {thread : Thread S ε ρ}
    (h : thread.Follows sem P Q past) (hsub : ∀ a past, Q a past → Q' a past) :
    thread.Follows sem P Q' past := by
  induction thread generalizing past with
  | done answer => exact fun a ha ↦ hsub a past (h a ha)
  | lock body next ih => exact ⟨h.1, fun input s ↦ ih _ (h.2 input s)⟩

theorem Follows.attempt {Q : ρ → List (Pool.Happening S ι σ) → Prop} {thread : Thread S ε ρ}
    (h : thread.Follows sem P Q past) : thread.attempt.Follows sem P (fun _ _ ↦ True) past := by
  induction thread generalizing past with
  | done answer => exact fun _ _ ↦ trivial
  | lock body next ih => exact ⟨h.1, fun input s ↦ ih _ (h.2 input s)⟩

/-- Entry after entry, whatever is seen in between. -/
theorem Follows.each {α : Type} {f : α → Thread S ε ρ} {entries : List α}
    (h : ∀ a ∈ entries, ∀ later, (f a).Follows sem P (fun _ _ ↦ True) (past ++ later)) :
    (Thread.each f entries).Follows sem P (fun _ _ ↦ True) past := by
  induction entries generalizing past with
  | nil => exact fun _ _ ↦ trivial
  | cons a rest ih =>
    have hfirst := h a List.mem_cons_self []
    rw [List.append_nil] at hfirst
    refine .bind hfirst fun b later _ ↦ .bind (ih fun c hc more ↦ ?_) fun _ _ _ ↦ fun _ _ ↦ trivial
    rw [List.append_assoc]
    exact h c (List.mem_cons_of_mem _ hc) _

theorem follows_of_forall (h : ∀ past α (body : S α), P past α body) (thread : Thread S ε ρ) :
    thread.Follows sem P (fun _ _ ↦ True) past := by
  induction thread generalizing past with
  | done answer => exact fun _ _ ↦ trivial
  | lock body next ih => exact ⟨h past _ body, fun input s ↦ ih _⟩

/-- What is allowed in any case is allowed by whatever the request has seen. -/
theorem Only.follows {allowed : (α : Type) → S α → Prop} {thread : Thread S ε ρ} (h : thread.Only allowed)
    (hallowed : ∀ past α (body : S α), allowed α body → P past α body) :
    thread.Follows sem P (fun _ _ ↦ True) past := by
  induction thread generalizing past with
  | done answer => exact fun _ _ ↦ trivial
  | lock body next ih => exact ⟨hallowed past _ body h.1, fun input s ↦ ih _ (h.2 _)⟩

end Thread

namespace Pool

variable {sem : Semantics S ε ι σ} {pool : Pool S ε σ ρ}

/-- The sections that run under a schedule, in order, each with the request that runs it. -/
def logBy (sem : Semantics S ε ι σ) (pool : Pool S ε σ ρ) : List (ℕ × ι) → List (ℕ × Happening S ι σ)
  | [] => []
  | (i, input) :: rest =>
    match pool.threads[i]? with
    | some (.lock body _) => (i, ⟨body, input, pool.state⟩) :: logBy sem (pool.turn sem i input) rest
    | some (.done _) | none => logBy sem (pool.turn sem i input) rest

theorem map_snd_logBy (pool : Pool S ε σ ρ) (schedule : List (ℕ × ι)) :
    (pool.logBy sem schedule).map Prod.snd = pool.log sem schedule := by
  induction schedule generalizing pool with
  | nil => rfl
  | cons turn rest ih =>
    obtain ⟨i, input⟩ := turn
    rw [logBy, log]
    cases pool.threads[i]? with
    | none => exact ih _
    | some thread =>
      cases thread with
      | done answer => exact ih _
      | lock body next => exact congrArg _ (ih _)

/-- What one request has seen. -/
def own (i : ℕ) (log : List (ℕ × Happening S ι σ)) : List (Happening S ι σ) :=
  (log.filter fun entry ↦ entry.1 == i).map Prod.snd

theorem mem_of_mem_own {i : ℕ} {log : List (ℕ × Happening S ι σ)} {h : Happening S ι σ} (hmem : h ∈ own i log) :
    h ∈ log.map Prod.snd := by
  obtain ⟨entry, hentry, rfl⟩ := List.mem_map.mp hmem
  exact List.mem_map_of_mem (List.mem_of_mem_filter hentry)

theorem own_append_self (i : ℕ) (log : List (ℕ × Happening S ι σ)) (h : Happening S ι σ) :
    own i (log ++ [(i, h)]) = own i log ++ [h] := by
  simp [own]

theorem own_append_of_ne {i j : ℕ} (hij : i ≠ j) (log : List (ℕ × Happening S ι σ))
    (h : Happening S ι σ) : own j (log ++ [(i, h)]) = own j log := by
  simp [own, hij]

/-- One more section has run. -/
abbrev further (past : List (ℕ × Happening S ι σ)) (entry : ℕ × Happening S ι σ) :
    List (ℕ × Happening S ι σ) := past ++ [entry]

/-- What holds along the log holds along the log with who ran each section. -/
theorem along_logBy {P : List (Happening S ι σ) → Happening S ι σ → Prop} {schedule : List (ℕ × ι)}
    (h : Along (fun past h ↦ past ++ [h]) P [] (pool.log sem schedule)) :
    Along further (fun past entry ↦ P (past.map Prod.snd) entry.2) [] (pool.logBy sem schedule) := by
  rw [← map_snd_logBy] at h
  refine (along_map (f := List.map Prod.snd) (g := Prod.snd) ?_).mp h
  exact fun past entry ↦ List.map_append

/-- Every section that runs is one that what its request has seen allows. -/
theorem follows_logBy {P : ℕ → List (Happening S ι σ) → (α : Type) → S α → Prop}
    {Q : ρ → List (Happening S ι σ) → Prop} {past : List (ℕ × Happening S ι σ)} {schedule : List (ℕ × ι)}
    (hthreads : ∀ (i : ℕ) (thread : Thread S ε ρ), pool.threads[i]? = some thread →
      thread.Follows sem (P i) Q (own i past)) :
    Along further (fun past entry ↦ P entry.1 (own entry.1 past) entry.2.α entry.2.body) past
      (pool.logBy sem schedule) := by
  induction schedule generalizing pool past with
  | nil => trivial
  | cons turn rest ih =>
    obtain ⟨i, input⟩ := turn
    rw [logBy]
    cases hthread : pool.threads[i]? with
    | none =>
      have hidle : pool.turn sem i input = pool := by rw [Pool.turn, hthread]
      rw [hidle]
      exact ih hthreads
    | some thread =>
      cases thread with
      | done answer =>
        have hidle : pool.turn sem i input = pool := by rw [Pool.turn, hthread]
        rw [hidle]
        exact ih hthreads
      | lock body next =>
        have hmine := hthreads i _ hthread
        refine ⟨hmine.1, ih fun j other hj ↦ ?_⟩
        rw [Pool.turn, hthread] at hj
        dsimp only at hj
        rw [List.getElem?_set] at hj
        split_ifs at hj with hij hlt
        · subst hij
          obtain rfl := Option.some.inj hj
          rw [own_append_self]
          exact hmine.2 input pool.state
        · rw [own_append_of_ne hij]
          exact hthreads j other hj

end Pool

end Taskologic.Library
