import Taskologic.Core.Ids
import Taskologic.Core.Moment
import Mathlib.Tactic

/-!
# Time tracking

What a task's trail of column changes adds up to. Time taken is time spent in the started column, pauses left
out. Wall clock is first start to finish with everything in between. A task that was never started has
neither.

A change that leaves the columns altogether, which is what archiving is, ends the finish along with the
interval it falls into: `timings_archived_iff` says for which trails nothing of what was measured changes.
-/

set_option autoImplicit false
set_option relaxedAutoImplicit false

namespace Taskologic.Core

/-- One column change from a task's history. -/
structure Transition where
  recordedAt : Instant
  /-- Where the task landed. Nothing when it left the board's columns. -/
  destination : Option ColumnId
  deriving DecidableEq, Repr

/-- What one task's trail adds up to. -/
structure Timings where
  /-- The first time it entered the started column. -/
  startedAt : Option Instant
  /-- When it last entered the finished column, if it is still there. -/
  finishedAt : Option Instant
  /-- Time in the started column, in seconds. -/
  timeTaken : Option ℤ
  /-- First start to finish. Runs to now while unfinished. -/
  wallClock : Option ℤ
  deriving DecidableEq, Repr

/-- The loop variables of `timings`. -/
structure Reading where
  startedAt : Option Instant
  finishedAt : Option Instant
  total : ℤ
  runningSince : Option Instant
  deriving DecidableEq, Repr

namespace Reading

def start : Reading := ⟨none, none, 0, none⟩

/-- Leaving the started column banks whatever was accrued in it. -/
def bank (reading : Reading) (entering : Bool) (now : Instant) : Reading :=
  match reading.runningSince with
  | some since =>
    if entering then reading
    else { reading with total := reading.total + (now - since), runningSince := none }
  | none => reading

def begin (reading : Reading) (entering : Bool) (now : Instant) : Reading :=
  if entering && reading.runningSince.isNone then
    { reading with runningSince := some now, startedAt := reading.startedAt.or (some now) }
  else reading

/-- One round of the loop. Finishing is not final: a task moved back out is unfinished again. -/
def pass (startedCol finishedCol : ColumnId) (reading : Reading) (t : Transition) : Reading :=
  let entering := t.destination == some startedCol
  { (reading.bank entering t.recordedAt).begin entering t.recordedAt with
    finishedAt := if t.destination == some finishedCol then some t.recordedAt else none }

/-- What is measured by now. -/
def banked (reading : Reading) (now : Instant) : ℤ :=
  reading.total + reading.runningSince.elim 0 fun since ↦ now - since

/-- After the loop: what is still running runs to now. -/
def timings (reading : Reading) (now : Instant) : Timings where
  startedAt := reading.startedAt
  finishedAt := reading.finishedAt
  timeTaken := reading.startedAt.map fun _ ↦
    match reading.runningSince with
    | some since => reading.total + (max now since - since)
    | none => reading.total
  wallClock := reading.startedAt.map fun start ↦ max (reading.finishedAt.getD now - start) 0

end Reading

/-- Adds up one task's trail, oldest first. -/
def timings (trail : List Transition) (startedCol finishedCol : ColumnId) (now : Instant) : Timings :=
  (trail.foldl (Reading.pass startedCol finishedCol) .start).timings now

/-- The longest time a `TimeDelta` holds, in whole seconds. -/
def maxSeconds : ℤ := 9223372036854775

/-- The sum of durations, if it is one. -/
def checkedSum (samples : List ℤ) : Option ℤ :=
  samples.foldlM (fun total sample ↦
    if |total + sample| ≤ maxSeconds then some (total + sample) else none) 0

/-- The mean of a set of durations, in nanoseconds, and how many it is over. -/
def average (samples : List ℤ) : Option (ℤ × ℕ) :=
  if 0 < samples.length ∧ samples.length < 2 ^ 31 then
    (checkedSum samples).map fun total ↦ ((total * 10 ^ 9).tdiv samples.length, samples.length)
  else none

/-- Where a trail leaves the task. -/
def whereabouts (trail : List Transition) : Option ColumnId := trail.getLast?.bind Transition.destination

/-! ### What one change does -/

section Pass

variable {startedCol finishedCol : ColumnId} {reading : Reading} {t : Transition}

theorem pass_finishedAt : (reading.pass startedCol finishedCol t).finishedAt =
    if t.destination = some finishedCol then some t.recordedAt else none := by
  simp [Reading.pass]

/-- The clock runs from a change on exactly when it goes into the started column. -/
theorem pass_isRunning : (reading.pass startedCol finishedCol t).runningSince.isSome = true ↔
    t.destination = some startedCol := by
  unfold Reading.pass Reading.begin Reading.bank
  cases hrunning : reading.runningSince <;> by_cases hentering : t.destination = some startedCol <;>
    simp [hrunning, hentering]

/-- What is set by a change does not depend on the finish before it. -/
theorem pass_unfinished :
    { reading with finishedAt := none }.pass startedCol finishedCol t = reading.pass startedCol finishedCol t := by
  unfold Reading.pass Reading.begin Reading.bank
  cases hrunning : reading.runningSince <;> by_cases hentering : t.destination = some startedCol <;>
    simp [hrunning, hentering]

/-- While the clock does not run, leaving the columns ends the finish and nothing else. -/
theorem pass_left (hidle : reading.runningSince = none) (now : Instant) :
    reading.pass startedCol finishedCol ⟨now, none⟩ = { reading with finishedAt := none } := by
  simp [Reading.pass, Reading.begin, Reading.bank, hidle]

/-- While it runs, leaving the columns banks what it has measured. -/
theorem pass_interrupted {since : Instant} (hrunning : reading.runningSince = some since) (now : Instant) :
    reading.pass startedCol finishedCol ⟨now, none⟩ =
      ⟨reading.startedAt, none, reading.total + (now - since), none⟩ := by
  simp [Reading.pass, Reading.begin, Reading.bank, hrunning]

/-- The first time the clock begins to run is the start. -/
theorem pass_startedAt : (reading.pass startedCol finishedCol t).startedAt =
    if t.destination = some startedCol ∧ reading.runningSince.isSome = false then
      reading.startedAt.or (some t.recordedAt) else reading.startedAt := by
  unfold Reading.pass Reading.begin Reading.bank
  cases hrunning : reading.runningSince <;> by_cases hentering : t.destination = some startedCol <;>
    simp [hrunning, hentering]

/-- What is measured goes on from what was measured at the change, if the change is into the started
column. -/
theorem pass_banked (now : Instant) : (reading.pass startedCol finishedCol t).banked now =
    reading.banked t.recordedAt + if t.destination = some startedCol then now - t.recordedAt else 0 := by
  unfold Reading.pass Reading.begin Reading.bank Reading.banked
  cases hrunning : reading.runningSince <;> by_cases hentering : t.destination = some startedCol <;>
    simp [hrunning, hentering]
  ring

/-- Where the clock runs, a start is on record. -/
def Reading.Begun (reading : Reading) : Prop :=
  reading.runningSince.isSome = true → reading.startedAt.isSome = true

theorem Reading.Begun.pass (h : reading.Begun) : (reading.pass startedCol finishedCol t).Begun := by
  intro hrunning
  have hentering := pass_isRunning.mp hrunning
  rw [pass_startedAt]
  cases hsince : reading.runningSince.isSome with
  | true => simpa [hentering] using h hsince
  | false => simp [hentering]

/-- A start that is on record stays there. -/
theorem isSome_startedAt_foldl {reading : Reading} (h : reading.startedAt.isSome = true)
    (later : List Transition) :
    (later.foldl (Reading.pass startedCol finishedCol) reading).startedAt.isSome = true := by
  induction later generalizing reading with
  | nil => exact h
  | cons t later ih =>
    refine ih ?_
    rw [pass_startedAt]
    split_ifs <;> simp [h]

end Pass

/-! ### What a trail adds up to -/

section Trail

variable {startedCol finishedCol : ColumnId}

/-- What is read off a trail. -/
def readTrail (startedCol finishedCol : ColumnId) (trail : List Transition) : Reading :=
  trail.foldl (Reading.pass startedCol finishedCol) .start

theorem timings_eq (trail : List Transition) (now : Instant) :
    timings trail startedCol finishedCol now = (readTrail startedCol finishedCol trail).timings now := rfl

theorem whereabouts_concat (trail : List Transition) (t : Transition) :
    whereabouts (trail ++ [t]) = t.destination := by
  simp [whereabouts]

/-- After a trail the clock runs exactly when the trail leaves the task in the started column. -/
theorem isRunning_readTrail (trail : List Transition) :
    (readTrail startedCol finishedCol trail).runningSince.isSome = true ↔ whereabouts trail = some startedCol := by
  induction trail using List.reverseRecOn with
  | nil => simp [readTrail, Reading.start, whereabouts]
  | append_singleton trail t _ =>
    rw [whereabouts_concat, readTrail, List.foldl_concat, pass_isRunning]

/-- After a trail there is a finish exactly when the trail leaves the task in the finished column. -/
theorem isFinished_readTrail (trail : List Transition) :
    (readTrail startedCol finishedCol trail).finishedAt = none ↔ whereabouts trail ≠ some finishedCol := by
  induction trail using List.reverseRecOn with
  | nil => simp [readTrail, Reading.start, whereabouts]
  | append_singleton trail t _ =>
    rw [whereabouts_concat, readTrail, List.foldl_concat, pass_finishedAt]
    split_ifs with h <;> simp [h]

theorem begun_readTrail (trail : List Transition) : (readTrail startedCol finishedCol trail).Begun := by
  induction trail using List.reverseRecOn with
  | nil => simp [readTrail, Reading.start, Reading.Begun]
  | append_singleton trail t ih =>
    rw [readTrail, List.foldl_concat]
    exact ih.pass

/-- From the second change on, a finish that was forgotten makes no difference. -/
theorem foldl_pass_unfinished (reading : Reading) {later : List Transition} (h : later ≠ []) :
    later.foldl (Reading.pass startedCol finishedCol) { reading with finishedAt := none } =
      later.foldl (Reading.pass startedCol finishedCol) reading := by
  obtain ⟨t, later, rfl⟩ := List.exists_cons_of_ne_nil h
  rw [List.foldl_cons, List.foldl_cons, pass_unfinished]

/-! ### Readings that are so far apart -/

/-- Two readings of which the second has measured so much more than the first. -/
structure Apart (gap : ℤ) (a b : Reading) : Prop where
  startedAt : a.startedAt = b.startedAt
  running : a.runningSince.isSome = b.runningSince.isSome
  banked : ∀ now, b.banked now = a.banked now + gap

/-- A change treats both alike. -/
theorem Apart.pass {gap : ℤ} {a b : Reading} (h : Apart gap a b) (t : Transition) :
    Apart gap (a.pass startedCol finishedCol t) (b.pass startedCol finishedCol t) where
  startedAt := by rw [pass_startedAt, pass_startedAt, h.startedAt, h.running]
  running := by rw [Bool.eq_iff_iff, pass_isRunning, pass_isRunning]
  banked now := by rw [pass_banked, pass_banked, h.banked]; omega

theorem Apart.foldl {gap : ℤ} {a b : Reading} (h : Apart gap a b) (later : List Transition) :
    Apart gap (later.foldl (Reading.pass startedCol finishedCol) a)
      (later.foldl (Reading.pass startedCol finishedCol) b) := by
  induction later generalizing a b with
  | nil => exact h
  | cons t later ih => exact ih (h.pass t)

/-- From the moment on at which the clock began to run, what is reported is what is measured. -/
theorem timeTaken_timings {reading : Reading} {now : Instant} (hbegun : reading.startedAt.isSome = true)
    (hsince : ∀ since ∈ reading.runningSince, since ≤ now) :
    (reading.timings now).timeTaken = some (reading.banked now) := by
  obtain ⟨start, hstart⟩ := Option.isSome_iff_exists.mp hbegun
  cases hrunning : reading.runningSince with
  | none => simp [Reading.timings, Reading.banked, hstart, hrunning]
  | some since => simp [Reading.timings, Reading.banked, hstart, hrunning, hsince since hrunning]

/-- Two readings that have measured different times report so, sooner or later. -/
theorem timings_ne_of_banked_ne {a b : Reading} (ha : a.startedAt.isSome = true)
    (hb : b.startedAt.isSome = true) (now : Instant) (hne : ∀ after > now, b.banked after ≠ a.banked after) :
    ∃ after ≥ now, b.timings after ≠ a.timings after := by
  obtain ⟨after, hafter, hlate, hlate'⟩ : ∃ after > now, a.runningSince.getD now ≤ after ∧
      b.runningSince.getD now ≤ after :=
    ⟨max (now + 1) (max (a.runningSince.getD now) (b.runningSince.getD now)),
      lt_of_lt_of_le (Int.lt_succ now) (le_max_left ..), le_max_of_le_right (le_max_left ..),
      le_max_of_le_right (le_max_right ..)⟩
  refine ⟨after, hafter.le, fun hsame ↦ hne after hafter ?_⟩
  have htaken := timeTaken_timings ha fun since hsince ↦ by simpa [Option.mem_def.mp hsince] using hlate
  have htaken' := timeTaken_timings hb fun since hsince ↦ by simpa [Option.mem_def.mp hsince] using hlate'
  rw [← hsame, htaken'] at htaken
  exact Option.some.inj htaken

/-! ### Leaving the columns -/

/-- What goes on after an interruption is behind by what came between the interruption and the next
change. -/
theorem apart_interrupted {reading : Reading} {since : Instant} (hsince : reading.runningSince = some since)
    (hbegun : reading.Begun) (now : Instant) (t : Transition) :
    Apart (now - t.recordedAt) (reading.pass startedCol finishedCol t)
      ((reading.pass startedCol finishedCol ⟨now, none⟩).pass startedCol finishedCol t) where
  startedAt := by
    obtain ⟨start, hstart⟩ := Option.isSome_iff_exists.mp (hbegun (by simp [hsince]))
    rw [pass_interrupted hsince, pass_startedAt, pass_startedAt]
    simp [hsince, hstart]
  running := by rw [Bool.eq_iff_iff, pass_isRunning, pass_isRunning]
  banked after := by
    rw [pass_interrupted hsince, pass_banked, pass_banked]
    simp only [Reading.banked, hsince, Option.elim_some, Option.elim_none]
    ring

/-- An interruption shows, whatever comes after it. -/
theorem exists_timings_ne_of_interrupted {reading : Reading} {since : Instant}
    (hsince : reading.runningSince = some since) (hbegun : reading.Begun) {now : Instant}
    {later : List Transition} (hlater : ∀ t ∈ later, now < t.recordedAt) :
    ∃ after ≥ now,
      (later.foldl (Reading.pass startedCol finishedCol)
          (reading.pass startedCol finishedCol ⟨now, none⟩)).timings after ≠
        (later.foldl (Reading.pass startedCol finishedCol) reading).timings after := by
  have hstarted : reading.startedAt.isSome = true := hbegun (by simp [hsince])
  have hstarted' : (reading.pass startedCol finishedCol ⟨now, none⟩).startedAt.isSome = true := by
    rwa [pass_interrupted hsince]
  refine timings_ne_of_banked_ne (isSome_startedAt_foldl hstarted later)
    (isSome_startedAt_foldl hstarted' later) now fun after hafter ↦ ?_
  cases later with
  | nil =>
    rw [List.foldl_nil, List.foldl_nil, pass_interrupted hsince]
    simp only [Reading.banked, hsince, Option.elim_some, Option.elim_none]
    intro hsame
    linarith
  | cons t later =>
    have hgap := hlater t (by simp)
    rw [List.foldl_cons, List.foldl_cons, ((apart_interrupted hsince hbegun now t).foldl later).banked after]
    intro hsame
    linarith

/-- A change out of the columns, in between what is on a trail already, goes unnoticed exactly when it
interrupts no time in the started column and, as the last change, ends no finish. -/
theorem timings_archived_iff {past later : List Transition} {now : Instant}
    (hlater : ∀ t ∈ later, now < t.recordedAt) :
    (∀ after ≥ now, timings (past ++ ⟨now, none⟩ :: later) startedCol finishedCol after =
        timings (past ++ later) startedCol finishedCol after) ↔
      whereabouts past ≠ some startedCol ∧ (later = [] → whereabouts past ≠ some finishedCol) := by
  have hread (rest : List Transition) : readTrail startedCol finishedCol (past ++ rest) =
      rest.foldl (Reading.pass startedCol finishedCol) (readTrail startedCol finishedCol past) :=
    List.foldl_append ..
  have hrunning : (readTrail startedCol finishedCol past).runningSince.isSome = true ↔ _ :=
    isRunning_readTrail past
  have hfinished : (readTrail startedCol finishedCol past).finishedAt = none ↔ _ :=
    isFinished_readTrail past
  have hbegun : (readTrail startedCol finishedCol past).Begun := begun_readTrail past
  simp only [timings_eq, hread, List.foldl_cons]
  rw [← hfinished, ne_eq, ← hrunning]
  generalize readTrail startedCol finishedCol past = reading at hbegun ⊢
  cases hsince : reading.runningSince with
  | none =>
    rw [pass_left hsince]
    by_cases hlast : later = []
    · subst hlast
      refine ⟨fun hsame ↦ ⟨by simp, fun _ ↦ ?_⟩, fun h after _ ↦ ?_⟩
      · exact (congrArg Timings.finishedAt (hsame now le_rfl)).symm
      · rw [List.foldl_nil, List.foldl_nil, ← h.2 rfl]
    · simp [foldl_pass_unfinished reading hlast, hlast]
  | some since =>
    obtain ⟨after, hafter, hne⟩ := exists_timings_ne_of_interrupted hsince hbegun hlater
    exact ⟨fun hsame ↦ absurd (hsame after hafter) hne, fun h ↦ absurd rfl h.1⟩

/-! ### Columns under other names -/

/-- A change with its destination under another name. -/
def Transition.rename (names : ColumnId → ColumnId) (t : Transition) : Transition :=
  { t with destination := t.destination.map names }

/-- The new name of a column is the name of a role exactly when the column has the role. -/
def Transition.KeepsRole (names : ColumnId → ColumnId) (role role' : ColumnId) (t : Transition) : Prop :=
  ∀ column ∈ t.destination, names column = role' ↔ column = role

theorem rename_destination_eq {names : ColumnId → ColumnId} {role role' : ColumnId} {t : Transition}
    (h : t.KeepsRole names role role') :
    (t.rename names).destination = some role' ↔ t.destination = some role := by
  cases hdestination : t.destination with
  | none => simp [Transition.rename, hdestination]
  | some column => simp [Transition.rename, hdestination, h column hdestination]

theorem pass_rename {names : ColumnId → ColumnId} {startedCol' finishedCol' : ColumnId} {t : Transition}
    (hstarted : t.KeepsRole names startedCol startedCol') (hfinished : t.KeepsRole names finishedCol finishedCol')
    (reading : Reading) :
    reading.pass startedCol' finishedCol' (t.rename names) = reading.pass startedCol finishedCol t := by
  have hentering : ((t.rename names).destination == some startedCol') = (t.destination == some startedCol) := by
    rw [Bool.eq_iff_iff, beq_iff_eq, beq_iff_eq, rename_destination_eq hstarted]
  have hdone : ((t.rename names).destination == some finishedCol') = (t.destination == some finishedCol) := by
    rw [Bool.eq_iff_iff, beq_iff_eq, beq_iff_eq, rename_destination_eq hfinished]
  unfold Reading.pass
  rw [hentering, hdone]
  rfl

/-- A trail adds up to the same where the names of the columns tell the roles apart as before. -/
theorem timings_rename {names : ColumnId → ColumnId} {startedCol' finishedCol' : ColumnId}
    {trail : List Transition} (hstarted : ∀ t ∈ trail, t.KeepsRole names startedCol startedCol')
    (hfinished : ∀ t ∈ trail, t.KeepsRole names finishedCol finishedCol') (now : Instant) :
    timings (trail.map (Transition.rename names)) startedCol' finishedCol' now =
      timings trail startedCol finishedCol now := by
  rw [timings, timings, List.foldl_map]
  congr 1
  generalize Reading.start = reading
  induction trail generalizing reading with
  | nil => rfl
  | cons t trail ih =>
    rw [List.foldl_cons, List.foldl_cons, pass_rename (hstarted t List.mem_cons_self)
      (hfinished t List.mem_cons_self)]
    exact ih (fun t ht ↦ hstarted t (List.mem_cons_of_mem _ ht))
      (fun t ht ↦ hfinished t (List.mem_cons_of_mem _ ht)) _

end Trail

end Taskologic.Core
