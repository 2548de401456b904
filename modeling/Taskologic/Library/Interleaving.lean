import Mathlib.Logic.Relation
import Mathlib.Tactic

/-!
# Interleavings of lock sections

Several requests share a state behind one lock. A request is a `Thread`: it has answered, or it runs
one more section under the lock and goes on from what the section answered. A section answers or
fails, and so does a request. `S` is the type of sections, each with the type of its answer, and a
`Semantics` says what a section does to the state, given what it reads from outside of it. Between two
sections of a request, sections of any other requests may run. A `Pool` is the state with the requests
that are under way.

`Pool.Step` is one section of one request, and `Pool.Reaches` is any number of them in any order, all
meeting a condition on the section and the state it starts from. A property every section keeps holds
of every state reached (`Pool.Reaches.invariant`). `Thread.Meets` is what a request may rely on and has
to keep: each of its sections is run in a state that satisfies a precondition, as long as the others
take the state along a relation; `Pool.Reaches.meets` puts the requests of a pool together.

`Pool.play` carries out a given schedule, so that a particular interleaving can be computed
(`Pool.reaches_play`), and `Pool.log` is what happened on the way.

Scope. Requests do not arrive while others run: a request that has not run its first section yet has
had no effect, so it may as well be there from the start.
-/

set_option autoImplicit false
set_option relaxedAutoImplicit false

namespace Taskologic.Library

/-- A request: its answer, or the section it runs next and how it goes on from there. -/
inductive Thread (S : Type → Type) (ε ρ : Type) : Type 1 where
  | done (answer : Except ε ρ)
  | lock {α : Type} (body : S α) (next : Except ε α → Thread S ε ρ)

/-- What a section answers and does to the state. `ι` is what it reads from outside of it. -/
structure Semantics (S : Type → Type) (ε ι σ : Type) where
  run : {α : Type} → S α → ι → σ → Except ε α × σ

namespace Thread

variable {S : Type → Type} {ε ρ ρ' : Type}

/-- One request after another, the second made from the answer of the first. -/
def bind (first : Thread S ε ρ) (next : ρ → Thread S ε ρ') : Thread S ε ρ' :=
  match first with
  | .done (.ok answer) => next answer
  | .done (.error error) => .done (.error error)
  | .lock body rest => .lock body fun answer ↦ (rest answer).bind next

instance : Monad (Thread S ε) where
  pure answer := .done (.ok answer)
  bind := bind

/-- One section, and its answer. -/
def call (body : S ρ) : Thread S ε ρ := .lock body .done

def fail (error : ε) : Thread S ε ρ := .done (.error error)

/-- One check outside the lock, with the error it gives. -/
def check (p : Prop) [Decidable p] (error : ε) : Thread S ε Unit :=
  if p then .done (.ok ()) else .done (.error error)

/-- A failure becomes part of the answer. -/
def attempt : Thread S ε ρ → Thread S ε (Except ε ρ)
  | .done answer => .done (.ok answer)
  | .lock body next => .lock body fun answer ↦ (next answer).attempt

/-- The same for every entry of a list, in order, with the answers. -/
def each {α : Type} (f : α → Thread S ε ρ) : List α → Thread S ε (List ρ)
  | [] => pure []
  | a :: rest => do
    let b ← f a
    let later ← each f rest
    pure (b :: later)

/-- The same request where its sections are some among others. -/
def lift {S' : Type → Type} (f : {α : Type} → S α → S' α) : Thread S ε ρ → Thread S' ε ρ
  | .done answer => .done answer
  | .lock body next => .lock (f body) fun answer ↦ (next answer).lift f

/-- The answer, if there is one already. -/
def answer? : Thread S ε ρ → Option (Except ε ρ)
  | .done answer => some answer
  | .lock _ _ => none

theorem error_bind (error : ε) (next : ρ → Thread S ε ρ') : done (.error error) >>= next = fail error := rfl

/-! ### What a request relies on and keeps -/

section Meets

variable {ι σ : Type} (sem : Semantics S ε ι σ) (Rely : σ → σ → Prop)
  (P : (α : Type) → S α → σ → Prop)

/-- Each section the request has yet to run is run in a state as it should be, and its answer is one as it
should be, as long as the others take the state along `Rely`. -/
def Meets (Q : ρ → σ → Prop) : Thread S ε ρ → σ → Prop
  | .done answer, s => ∀ a, answer = .ok a → Q a s
  | .lock (α := α) body next, s => ∀ s', Rely s s' → P α body s' ∧
      ∀ input, Meets Q (next (sem.run body input s').1) (sem.run body input s').2

variable {sem Rely P}

theorem meets_pure {Q : ρ → σ → Prop} {a : ρ} {s : σ} :
    Meets sem Rely P Q (pure a) s ↔ Q a s := by
  simp [pure, Meets]

/-- What holds now holds later, when the answers stay as they should be. -/
theorem Meets.later [IsTrans σ Rely] {Q : ρ → σ → Prop} {thread : Thread S ε ρ} {s s' : σ}
    (hstable : ∀ a s s', Rely s s' → Q a s → Q a s') (h : thread.Meets sem Rely P Q s)
    (hlater : Rely s s') : thread.Meets sem Rely P Q s' := by
  cases thread with
  | done answer => exact fun a ha ↦ hstable a s s' hlater (h a ha)
  | lock body next => exact fun s'' hs'' ↦ h s'' (IsTrans.trans _ _ _ hlater hs'')

theorem Meets.mono {Q Q' : ρ → σ → Prop} {thread : Thread S ε ρ} {s : σ} (h : thread.Meets sem Rely P Q s)
    (hsub : ∀ a s, Q a s → Q' a s) : thread.Meets sem Rely P Q' s := by
  induction thread generalizing s with
  | done answer => exact fun a ha ↦ hsub a s (h a ha)
  | lock body next ih => exact fun s' hs' ↦ ⟨(h s' hs').1, fun input ↦ ih _ ((h s' hs').2 input)⟩

theorem Meets.bind {M : ρ → σ → Prop} {Q : ρ' → σ → Prop} {first : Thread S ε ρ}
    {next : ρ → Thread S ε ρ'} {s : σ} (hfirst : first.Meets sem Rely P M s)
    (hnext : ∀ a s, M a s → (next a).Meets sem Rely P Q s) :
    (first >>= next).Meets sem Rely P Q s := by
  change (first.bind next).Meets sem Rely P Q s
  induction first generalizing s with
  | done answer =>
    cases answer with
    | ok a => exact hnext a s (hfirst a rfl)
    | error error => exact fun a ha ↦ nomatch ha
  | lock body rest ih =>
    intro s' hs'
    exact ⟨(hfirst s' hs').1, fun input ↦ ih _ ((hfirst s' hs').2 input)⟩

/-- One section. -/
theorem meets_call {Q : ρ → σ → Prop} {body : S ρ} {s : σ}
    (h : ∀ s', Rely s s' → P ρ body s' ∧
      ∀ input a, (sem.run body input s').1 = .ok a → Q a (sem.run body input s').2) :
    (call body : Thread S ε ρ).Meets sem Rely P Q s :=
  fun s' hs' ↦ ⟨(h s' hs').1, fun input a ha ↦ (h s' hs').2 input a ha⟩

theorem Meets.attempt {Q : ρ → σ → Prop} {thread : Thread S ε ρ} {s : σ}
    (h : thread.Meets sem Rely P Q s) : thread.attempt.Meets sem Rely P (fun _ _ ↦ True) s := by
  induction thread generalizing s with
  | done answer => exact fun _ _ ↦ trivial
  | lock body next ih => exact fun s' hs' ↦ ⟨(h s' hs').1, fun input ↦ ih _ ((h s' hs').2 input)⟩

/-- What every entry relies on and keeps, a list of them does. -/
theorem Meets.each {α : Type} {I : σ → Prop} {f : α → Thread S ε ρ} {entries : List α} {s : σ}
    (h : ∀ a ∈ entries, ∀ s, I s → (f a).Meets sem Rely P (fun _ ↦ I) s) (hs : I s) :
    (Thread.each f entries).Meets sem Rely P (fun _ ↦ I) s := by
  induction entries generalizing s with
  | nil => exact meets_pure.mpr hs
  | cons a rest ih =>
    refine .bind (h a List.mem_cons_self s hs) fun b s' hs' ↦ ?_
    refine .bind (ih (fun c hc ↦ h c (List.mem_cons_of_mem _ hc)) hs') fun later s'' hs'' ↦ ?_
    exact meets_pure.mpr hs''

theorem meets_check {p : Prop} [Decidable p] {error : ε} {s : σ} :
    (check p error : Thread S ε Unit).Meets sem Rely P (fun _ _ ↦ p) s := by
  unfold check
  split_ifs with hp
  · exact fun _ _ ↦ hp
  · exact fun _ h ↦ nomatch h

/-- The rest of a request whose first answer is known already. -/
theorem Meets.done_bind {Q : ρ' → σ → Prop} {answer : Except ε ρ} {next : ρ → Thread S ε ρ'} {s : σ}
    (h : ∀ a, answer = .ok a → (next a).Meets sem Rely P Q s) :
    ((.done answer : Thread S ε ρ) >>= next).Meets sem Rely P Q s := by
  cases answer with
  | ok a => exact h a rfl
  | error error => exact fun _ ha ↦ nomatch ha

/-- The rest of a request after a check. -/
theorem Meets.check_bind {Q : ρ → σ → Prop} {p : Prop} [Decidable p] {error : ε} {next : Unit → Thread S ε ρ}
    {s : σ} (h : p → (next ()).Meets sem Rely P Q s) :
    ((check p error : Thread S ε Unit) >>= next).Meets sem Rely P Q s := by
  unfold check
  split_ifs with hp
  · exact h hp
  · exact fun _ ha ↦ nomatch ha

end Meets

/-! ### Which sections a request may run -/

/-- Every section the request may run, whatever the sections before it answer, is one of those allowed. -/
def Only (allowed : (α : Type) → S α → Prop) : Thread S ε ρ → Prop
  | .done _ => True
  | .lock (α := α) body next => allowed α body ∧ ∀ answer, Only allowed (next answer)

section Only

variable {allowed : (α : Type) → S α → Prop}

@[simp] theorem only_done (answer : Except ε ρ) : Only allowed (.done answer : Thread S ε ρ) := trivial

@[simp] theorem only_pure (a : ρ) : Only allowed (pure a : Thread S ε ρ) := trivial

@[simp] theorem only_fail (error : ε) : Only allowed (fail error : Thread S ε ρ) := trivial

@[simp] theorem only_call {body : S ρ} :
    Only allowed (call body : Thread S ε ρ) ↔ allowed ρ body :=
  ⟨fun h ↦ h.1, fun h ↦ ⟨h, fun _ ↦ trivial⟩⟩

@[simp] theorem only_check {p : Prop} [Decidable p] {error : ε} :
    Only allowed (check p error : Thread S ε Unit) := by
  unfold check
  split_ifs <;> trivial

theorem Only.bind {first : Thread S ε ρ} {next : ρ → Thread S ε ρ'}
    (hfirst : first.Only allowed) (hnext : ∀ a, (next a).Only allowed) :
    (first >>= next).Only allowed := by
  change (first.bind next).Only allowed
  induction first with
  | done answer =>
    cases answer with
    | ok a => exact hnext a
    | error error => trivial
  | lock body rest ih => exact ⟨hfirst.1, fun answer ↦ ih answer (hfirst.2 answer)⟩

theorem Only.attempt {thread : Thread S ε ρ} (h : thread.Only allowed) :
    thread.attempt.Only allowed := by
  induction thread with
  | done answer => trivial
  | lock body next ih => exact ⟨h.1, fun answer ↦ ih answer (h.2 answer)⟩

theorem Only.each {α : Type} {f : α → Thread S ε ρ} (h : ∀ a, (f a).Only allowed)
    (entries : List α) : (each f entries).Only allowed := by
  induction entries with
  | nil => trivial
  | cons a rest ih => exact (h a).bind fun b ↦ ih.bind fun later ↦ trivial

theorem only_lift {S' : Type → Type} {f : {α : Type} → S α → S' α} {allowed' : (α : Type) → S' α → Prop}
    (h : ∀ α (body : S α), allowed' α (f body)) (thread : Thread S ε ρ) :
    (thread.lift f).Only allowed' := by
  induction thread with
  | done answer => trivial
  | lock body next ih => exact ⟨h _ body, fun answer ↦ ih answer⟩

theorem Only.mono {other : (α : Type) → S α → Prop} {thread : Thread S ε ρ}
    (h : thread.Only allowed) (hsub : ∀ α body, allowed α body → other α body) :
    thread.Only other := by
  induction thread with
  | done answer => trivial
  | lock body next ih => exact ⟨hsub _ body h.1, fun answer ↦ ih answer (h.2 answer)⟩

/-- A precondition of all allowed sections is met by a request that runs no others. -/
theorem Only.meets {ι σ : Type} {sem : Semantics S ε ι σ} {Rely : σ → σ → Prop}
    {P : (α : Type) → S α → σ → Prop} {thread : Thread S ε ρ} {s : σ} (h : thread.Only allowed)
    (hallowed : ∀ α (body : S α) s, allowed α body → P α body s) :
    thread.Meets sem Rely P (fun _ _ ↦ True) s := by
  induction thread generalizing s with
  | done answer => exact fun _ _ ↦ trivial
  | lock body next ih =>
    exact fun s' _ ↦ ⟨hallowed _ body s' h.1, fun input ↦ ih _ (h.2 _)⟩

end Only

/-- The request answers well only with what its last section, one of some, answers. -/
def EndsIn (last : (α : Type) → S α → Prop) : Thread S ε ρ → Prop
  | .done answer => ∃ error, answer = .error error
  | .lock (α := α) body next =>
    (last α body ∧ ∀ answer, ∃ a, next answer = .done a) ∨ ∀ answer, EndsIn last (next answer)

section EndsIn

variable {last : (α : Type) → S α → Prop}

/-- Whatever comes first, the rest ends as it does. -/
theorem EndsIn.bind (first : Thread S ε ρ) {next : ρ → Thread S ε ρ'}
    (hnext : ∀ a, (next a).EndsIn last) : (first >>= next).EndsIn last := by
  change (first.bind next).EndsIn last
  induction first with
  | done answer =>
    cases answer with
    | ok a => exact hnext a
    | error error => exact ⟨error, rfl⟩
  | lock body rest ih => exact .inr fun answer ↦ ih answer

/-- The last section, and an answer made from what it answers. -/
theorem endsIn_call {body : S ρ} {f : ρ → ρ'} (hbody : last ρ body) :
    (call body >>= fun a ↦ pure (f a) : Thread S ε ρ').EndsIn last := by
  refine .inl ⟨hbody, fun answer ↦ ?_⟩
  cases answer with
  | ok a => exact ⟨_, rfl⟩
  | error error => exact ⟨_, rfl⟩

end EndsIn

end Thread

/-- The state and the requests under way. -/
structure Pool (S : Type → Type) (ε σ ρ : Type) : Type 1 where
  state : σ
  threads : List (Thread S ε ρ)

namespace Pool

variable {S : Type → Type} {ε ι σ ρ : Type}

/-- A condition on the sections that run: the section, what it reads, and the state it starts from. -/
abbrev Condition (S : Type → Type) (ι σ : Type) : Type 1 := (α : Type) → S α → ι → σ → Prop

/-- No condition. -/
def anySection : Condition S ι σ := fun _ _ _ _ ↦ True

/-- One section of one request runs. -/
inductive Step (sem : Semantics S ε ι σ) (C : Condition S ι σ) : Pool S ε σ ρ → Pool S ε σ ρ → Prop where
  | lock {pool : Pool S ε σ ρ} {i : ℕ} {α : Type} {body : S α} {next : Except ε α → Thread S ε ρ}
      (input : ι) (hthread : pool.threads[i]? = some (.lock body next))
      (hmeets : C α body input pool.state) :
      Step sem C pool ⟨(sem.run body input pool.state).2,
        pool.threads.set i (next (sem.run body input pool.state).1)⟩

/-- Any number of sections run, in any order. -/
def Reaches (sem : Semantics S ε ι σ) (C : Condition S ι σ) : Pool S ε σ ρ → Pool S ε σ ρ → Prop :=
  Relation.ReflTransGen (Step sem C)

variable {sem : Semantics S ε ι σ} {C : Condition S ι σ} {start pool : Pool S ε σ ρ}

/-- What every section keeps holds of every state reached. -/
theorem Reaches.invariant {P : σ → Prop}
    (hkeep : ∀ (α : Type) (body : S α) (input : ι) (s : σ), C α body input s → P s →
      P (sem.run body input s).2)
    (hstart : P start.state) (h : Reaches sem C start pool) : P pool.state := by
  induction h with
  | refl => exact hstart
  | tail _ hstep ih =>
    obtain ⟨input, -, hmeets⟩ := hstep
    exact hkeep _ _ input _ hmeets ih

/-- A property of the pool that every section keeps, whoever runs it. -/
theorem Reaches.induct {P : Pool S ε σ ρ → Prop}
    (hkeep : ∀ (pool : Pool S ε σ ρ) (i : ℕ) (α : Type) (body : S α)
      (next : Except ε α → Thread S ε ρ) (input : ι), pool.threads[i]? = some (.lock body next) →
      C α body input pool.state → P pool →
      P ⟨(sem.run body input pool.state).2,
        pool.threads.set i (next (sem.run body input pool.state).1)⟩)
    (hstart : P start) (h : Reaches sem C start pool) : P pool := by
  induction h with
  | refl => exact hstart
  | tail _ hstep ih =>
    obtain ⟨input, hthread, hmeets⟩ := hstep
    exact hkeep _ _ _ _ _ input hthread hmeets ih

/-- An invariant of the state, together with what each request relies on and keeps. Every section takes
the state along `Rely`. -/
theorem Reaches.meets {Rely : σ → σ → Prop} [IsTrans σ Rely] [Std.Refl Rely]
    {P : ℕ → (α : Type) → S α → σ → Prop} {Q : ℕ → ρ → σ → Prop} {I : σ → Prop}
    (hstable : ∀ i a s s', Rely s s' → Q i a s → Q i a s')
    (hkeep : ∀ (i : ℕ) (α : Type) (body : S α) (input : ι) (s : σ), C α body input s → P i α body s →
      I s → I (sem.run body input s).2 ∧ Rely s (sem.run body input s).2)
    (hstart : I start.state)
    (hthreads : ∀ (i : ℕ) (thread : Thread S ε ρ), start.threads[i]? = some thread →
      thread.Meets sem Rely (P i) (Q i) start.state)
    (h : Reaches sem C start pool) :
    I pool.state ∧ ∀ (i : ℕ) (thread : Thread S ε ρ), pool.threads[i]? = some thread →
      thread.Meets sem Rely (P i) (Q i) pool.state := by
  refine h.induct (P := fun pool ↦ I pool.state ∧ ∀ (i : ℕ) (thread : Thread S ε ρ), pool.threads[i]? = some thread →
    thread.Meets sem Rely (P i) (Q i) pool.state) ?_ ⟨hstart, hthreads⟩
  rintro pool i α body next input hthread hC ⟨hinv, hall⟩
  have hmine := hall i _ hthread pool.state (refl_of Rely _)
  obtain ⟨hnext, hlater⟩ := hkeep i α body input pool.state hC hmine.1 hinv
  refine ⟨hnext, fun j thread hj ↦ ?_⟩
  rw [List.getElem?_set] at hj
  split_ifs at hj with hij hlt
  · subst hij
    obtain rfl := Option.some.inj hj
    exact hmine.2 input
  · exact (hall j thread hj).later (hstable j) hlater

/-! ### A given schedule -/

/-- Runs the next section of one request. One that has answered does nothing. -/
def turn (sem : Semantics S ε ι σ) (pool : Pool S ε σ ρ) (i : ℕ) (input : ι) : Pool S ε σ ρ :=
  match pool.threads[i]? with
  | some (.lock body next) =>
    ⟨(sem.run body input pool.state).2, pool.threads.set i (next (sem.run body input pool.state).1)⟩
  | some (.done _) | none => pool

/-- Carries out a schedule: which request runs its next section, and what that reads. -/
def play (sem : Semantics S ε ι σ) (pool : Pool S ε σ ρ) (schedule : List (ℕ × ι)) : Pool S ε σ ρ :=
  schedule.foldl (fun pool turn ↦ pool.turn sem turn.1 turn.2) pool

theorem play_cons (pool : Pool S ε σ ρ) (i : ℕ) (input : ι) (rest : List (ℕ × ι)) :
    pool.play sem ((i, input) :: rest) = (pool.turn sem i input).play sem rest := rfl

/-- The answers so far, one entry for each request. -/
def answers (pool : Pool S ε σ ρ) : List (Option (Except ε ρ)) := pool.threads.map Thread.answer?

theorem reaches_turn (pool : Pool S ε σ ρ) (i : ℕ) (input : ι) :
    Reaches sem anySection pool (pool.turn sem i input) := by
  unfold turn
  split
  · rename_i hthread
    exact .single (.lock input hthread trivial)
  · exact .refl
  · exact .refl

/-- Every schedule is an interleaving. -/
theorem reaches_play (pool : Pool S ε σ ρ) (schedule : List (ℕ × ι)) :
    Reaches sem anySection pool (pool.play sem schedule) := by
  induction schedule generalizing pool with
  | nil => exact .refl
  | cons turn rest ih => exact (reaches_turn pool turn.1 turn.2).trans (ih _)

/-! ### What happened -/

/-- A section that ran: what it read, and the state it started from. -/
structure Happening (S : Type → Type) (ι σ : Type) : Type 1 where
  {α : Type}
  body : S α
  input : ι
  before : σ

namespace Happening

/-- What the section answered. -/
def answer (sem : Semantics S ε ι σ) (h : Happening S ι σ) : Except ε h.α :=
  (sem.run h.body h.input h.before).1

/-- The state it left. -/
def after (sem : Semantics S ε ι σ) (h : Happening S ι σ) : σ :=
  (sem.run h.body h.input h.before).2

end Happening

/-- The sections that run under a schedule, in order. -/
def log (sem : Semantics S ε ι σ) (pool : Pool S ε σ ρ) : List (ℕ × ι) → List (Happening S ι σ)
  | [] => []
  | (i, input) :: rest =>
    match pool.threads[i]? with
    | some (.lock body _) => ⟨body, input, pool.state⟩ :: log sem (pool.turn sem i input) rest
    | some (.done _) | none => log sem (pool.turn sem i input) rest

/-- Sections that ran one after another, from a state to another. -/
inductive Trail (sem : Semantics S ε ι σ) : σ → List (Happening S ι σ) → σ → Prop where
  | nil (s : σ) : Trail sem s [] s
  | cons {h : Happening S ι σ} {rest : List (Happening S ι σ)} {s : σ}
      (hrest : Trail sem (h.after sem) rest s) : Trail sem h.before (h :: rest) s

/-- The log of a schedule leads from the state it starts in to the one it ends in. -/
theorem trail_log (pool : Pool S ε σ ρ) (schedule : List (ℕ × ι)) :
    Trail sem pool.state (pool.log sem schedule) (pool.play sem schedule).state := by
  induction schedule generalizing pool with
  | nil => exact .nil _
  | cons turn rest ih =>
    obtain ⟨i, input⟩ := turn
    have hrest := ih (pool.turn sem i input)
    rw [log, play_cons]
    cases hthread : pool.threads[i]? with
    | none =>
      have hidle : pool.turn sem i input = pool := by rw [Pool.turn, hthread]
      rw [hidle] at hrest ⊢
      exact hrest
    | some thread =>
      cases thread with
      | done answer =>
        have hidle : pool.turn sem i input = pool := by rw [Pool.turn, hthread]
        rw [hidle] at hrest ⊢
        exact hrest
      | lock body next =>
        have hstate : (pool.turn sem i input).state = (sem.run body input pool.state).2 := by
          rw [Pool.turn, hthread]
        rw [hstate] at hrest
        exact Trail.cons (h := ⟨body, input, pool.state⟩) hrest

/-- Each entry of a log meets a condition in the light of the history, which every entry extends. -/
def Along {κ η : Type*} (extend : κ → η → κ) (P : κ → η → Prop) : κ → List η → Prop
  | _, [] => True
  | history, h :: rest => P history h ∧ Along extend P (extend history h) rest

/-- Whether it is so can be computed along the log. -/
instance decidableAlong {κ η : Type*} (extend : κ → η → κ) (P : κ → η → Prop)
    [∀ history h, Decidable (P history h)] :
    (history : κ) → (log : List η) → Decidable (Along extend P history log)
  | _, [] => .isTrue trivial
  | history, h :: rest =>
    have := decidableAlong extend P (extend history h) rest
    inferInstanceAs (Decidable (P history h ∧ Along extend P (extend history h) rest))

section Along

variable {κ η : Type*} {extend : κ → η → κ} {P Q : κ → η → Prop} {log : List η} {history : κ}

theorem along_append {later : List η} : Along extend P history (log ++ later) ↔
    Along extend P history log ∧ Along extend P (log.foldl extend history) later := by
  induction log generalizing history with
  | nil => simp [Along]
  | cons h rest ih => simp [Along, ih, and_assoc]

theorem Along.and (hP : Along extend P history log) (hQ : Along extend Q history log) :
    Along extend (fun history h ↦ P history h ∧ Q history h) history log := by
  induction log generalizing history with
  | nil => trivial
  | cons h rest ih => exact ⟨⟨hP.1, hQ.1⟩, ih hP.2 hQ.2⟩

theorem Along.mono (hP : Along extend P history log) (hsub : ∀ history h, P history h → Q history h) :
    Along extend Q history log := by
  induction log generalizing history with
  | nil => trivial
  | cons h rest ih => exact ⟨hsub history h hP.1, ih hP.2⟩

theorem along_of_forall (h : ∀ history entry, P history entry) : Along extend P history log := by
  induction log generalizing history with
  | nil => trivial
  | cons first rest ih => exact ⟨h history first, ih⟩

/-- The same along what each entry comes to, with a history made of that. -/
theorem along_map {κ' η' : Type*} {extend' : κ' → η' → κ'} {P' : κ' → η' → Prop} {f : κ → κ'} {g : η → η'}
    (hextend : ∀ history h, f (extend history h) = extend' (f history) (g h)) :
    Along extend' P' (f history) (log.map g) ↔
      Along extend (fun history h ↦ P' (f history) (g h)) history log := by
  induction log generalizing history with
  | nil => exact Iff.rfl
  | cons h rest ih => rw [List.map_cons, Along, Along, ← hextend, ih]

/-- What does not depend on the history holds of every entry. -/
theorem Along.forall_mem {R : η → Prop} (h : Along extend (fun _ h ↦ R h) history log) :
    ∀ entry ∈ log, R entry := by
  induction log generalizing history with
  | nil => exact fun entry hmem ↦ (List.not_mem_nil hmem).elim
  | cons first rest ih => exact List.forall_mem_cons.mpr ⟨h.1, ih h.2⟩

end Along

section Trail

variable {κ : Type*} {extend : κ → Happening S ι σ → κ} {P Q : κ → Happening S ι σ → Prop}
  {J : κ → σ → Prop} {s s' : σ} {log : List (Happening S ι σ)} {history : κ}

/-- A log that leads somewhere can be split anywhere. -/
theorem Trail.split {later : List (Happening S ι σ)} (h : Trail sem s (log ++ later) s') :
    ∃ between, Trail sem s log between ∧ Trail sem between later s' := by
  induction log generalizing s with
  | nil => exact ⟨s, .nil s, h⟩
  | cons first rest ih =>
    cases h with
    | cons hrest =>
      obtain ⟨between, hone, htwo⟩ := ih hrest
      exact ⟨between, .cons hone, htwo⟩

/-- What is kept by every section that meets the condition holds in the end. -/
theorem Trail.invariant {C : Happening S ι σ → Prop} {I : σ → Prop} (h : Trail sem s log s')
    (hlog : ∀ h ∈ log, C h) (hkeep : ∀ h, C h → I h.before → I (h.after sem)) (hs : I s) : I s' := by
  induction h with
  | nil s => exact hs
  | cons hrest ih =>
    obtain ⟨hfirst, hothers⟩ := List.forall_mem_cons.mp hlog
    exact ih hothers (hkeep _ hfirst hs)

/-- What every section keeps holds all along, and what follows from it holds of every section. -/
theorem Trail.forall_mem {I : σ → Prop} {R : Happening S ι σ → Prop} (h : Trail sem s log s')
    (hkeep : ∀ h, I h.before → I (h.after sem) ∧ R h) (hs : I s) : (∀ h ∈ log, R h) ∧ I s' := by
  induction h with
  | nil s => exact ⟨fun h hmem ↦ (List.not_mem_nil hmem).elim, hs⟩
  | @cons first rest s hrest ih =>
    obtain ⟨hafter, hfirst⟩ := hkeep first hs
    obtain ⟨hothers, hlast⟩ := ih hafter
    exact ⟨List.forall_mem_cons.mpr ⟨hfirst, hothers⟩, hlast⟩

/-- What holds of the history and the state, and is kept by every section that meets the condition, holds
in the end. -/
theorem Trail.keeps (h : Trail sem s log s') (hlog : Along extend P history log)
    (hkeep : ∀ history h, P history h → J history h.before → J (extend history h) (h.after sem))
    (hs : J history s) : J (log.foldl extend history) s' := by
  induction h generalizing history with
  | nil s => exact hs
  | cons hrest ih => exact ih hlog.2 (hkeep history _ hlog.1 hs)

/-- What follows for a section that meets the condition from what holds before it, follows for all. -/
theorem Trail.along (h : Trail sem s log s') (hlog : Along extend P history log)
    (hkeep : ∀ history h, P history h → J history h.before → J (extend history h) (h.after sem))
    (hQ : ∀ history h, P history h → J history h.before → Q history h) (hs : J history s) :
    Along extend Q history log := by
  induction h generalizing history with
  | nil s => trivial
  | cons hrest ih => exact ⟨hQ history _ hlog.1 hs, ih hlog.2 (hkeep history _ hlog.1 hs)⟩

end Trail

/-- A schedule whose sections all meet a condition is an interleaving of such sections. -/
theorem reaches_of_log {schedule : List (ℕ × ι)}
    (h : ∀ happening ∈ pool.log sem schedule,
      C happening.α happening.body happening.input happening.before) :
    Reaches sem C pool (pool.play sem schedule) := by
  induction schedule generalizing pool with
  | nil => exact .refl
  | cons turn rest ih =>
    obtain ⟨i, input⟩ := turn
    rw [play_cons]
    rw [log] at h
    cases hthread : pool.threads[i]? with
    | none =>
      rw [hthread] at h
      have hidle : pool.turn sem i input = pool := by rw [Pool.turn, hthread]
      rw [hidle] at h ⊢
      exact ih h
    | some thread =>
      rw [hthread] at h
      cases thread with
      | done answer =>
        have hidle : pool.turn sem i input = pool := by rw [Pool.turn, hthread]
        rw [hidle] at h ⊢
        exact ih h
      | lock body next =>
        have hturn : pool.turn sem i input = ⟨(sem.run body input pool.state).2,
            pool.threads.set i (next (sem.run body input pool.state).1)⟩ := by
          rw [Pool.turn, hthread]
        have hfirst : Step sem C pool (pool.turn sem i input) := by
          rw [hturn]
          exact .lock input hthread (h ⟨body, input, pool.state⟩ List.mem_cons_self)
        exact .head hfirst (ih fun happening hmem ↦ h happening (List.mem_cons_of_mem _ hmem))

/-- Requests that run no other sections than those allowed keep doing so. -/
theorem only_turn {allowed : (α : Type) → S α → Prop} {i : ℕ} {input : ι}
    (hthreads : ∀ thread ∈ pool.threads, thread.Only allowed) :
    ∀ thread ∈ (pool.turn sem i input).threads, thread.Only allowed := by
  unfold turn
  split
  · rename_i hthread
    intro thread hmem
    rcases List.mem_or_eq_of_mem_set hmem with hother | rfl
    · exact hthreads thread hother
    · exact (hthreads _ (List.mem_of_getElem? hthread)).2 _
  · exact hthreads
  · exact hthreads

theorem only_log {allowed : (α : Type) → S α → Prop} {schedule : List (ℕ × ι)}
    (hthreads : ∀ thread ∈ pool.threads, thread.Only allowed) :
    ∀ h ∈ pool.log sem schedule, allowed h.α h.body := by
  induction schedule generalizing pool with
  | nil => exact fun h hmem ↦ nomatch hmem
  | cons turn rest ih =>
    obtain ⟨i, input⟩ := turn
    have hrest : ∀ h ∈ (pool.turn sem i input).log sem rest, allowed h.α h.body := ih (only_turn hthreads)
    rw [log]
    cases hthread : pool.threads[i]? with
    | none => exact hrest
    | some thread =>
      cases thread with
      | done answer => exact hrest
      | lock body next =>
        rintro h (_ | ⟨_, hmem⟩)
        · exact (hthreads _ (List.mem_of_getElem? hthread)).1
        · exact hrest h hmem

end Pool

end Taskologic.Library
