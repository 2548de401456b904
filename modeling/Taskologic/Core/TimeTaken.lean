import Taskologic.Core.Stats
import Taskologic.Library.Spells

/-!
# Time taken as the length of spells

A task works at a moment if the latest transition at or before it is into the started column. The moments it works at
before now fall into spells, and the loop of `timings` adds up their lengths, however often the task is paused, reopened
or archived (`timings_exact`). What is measured by the loop is followed transition by transition: each one closes the
account of the moments before it (`worked_concat`).
-/

set_option autoImplicit false
set_option relaxedAutoImplicit false

namespace Taskologic.Core

open Library

variable {startedCol finishedCol : ColumnId} {trail : List Transition} {now : Instant}

/-- The latest transition at or before a moment. -/
def latestAt (trail : List Transition) (x : Instant) : Option Transition :=
  (trail.filter fun t ↦ decide (t.recordedAt ≤ x)).getLast?

/-- The moments before `now` at which the latest transition was into the started column. -/
def worked (trail : List Transition) (startedCol : ColumnId) (now : Instant) : Set Instant :=
  {x | x < now ∧ (latestAt trail x).bind Transition.destination = some startedCol}

/-- The transitions are oldest first. -/
def Ordered (trail : List Transition) : Prop := trail.Pairwise fun a b ↦ a.recordedAt ≤ b.recordedAt

theorem ordered_concat {t : Transition} :
    Ordered (trail ++ [t]) ↔ Ordered trail ∧ ∀ earlier ∈ trail, earlier.recordedAt ≤ t.recordedAt := by
  simp [Ordered, List.pairwise_append]

theorem readTrail_concat (trail : List Transition) (t : Transition) : readTrail startedCol finishedCol (trail ++ [t]) =
    (readTrail startedCol finishedCol trail).pass startedCol finishedCol t := List.foldl_concat ..

/-! ### The moments of a trail -/

theorem latestAt_concat {t : Transition} {x : Instant} : latestAt (trail ++ [t]) x =
    if t.recordedAt ≤ x then some t else latestAt trail x := by
  rw [latestAt, List.filter_append]
  split_ifs with h <;> simp [latestAt, h]

/-- One more transition closes the account of the moments before it, and opens one if it is into the started column. -/
theorem worked_concat {t : Transition} (hnow : t.recordedAt ≤ now) : worked (trail ++ [t]) startedCol now =
    worked trail startedCol t.recordedAt ∪ if t.destination = some startedCol then Set.Ico t.recordedAt now else ∅ := by
  ext x
  simp only [worked, latestAt_concat, Set.mem_ofPred_eq, Set.mem_union]
  by_cases hlate : t.recordedAt ≤ x
  · have hpast : ¬ x < t.recordedAt := not_lt.mpr hlate
    simp only [hlate, if_true, hpast, false_and, false_or, Option.bind_some]
    split_ifs with hentering <;> simp [hentering, hlate]
  · have hpast : x < t.recordedAt := not_le.mp hlate
    have hbefore : x < now := lt_of_lt_of_le hpast hnow
    split_ifs with hentering <;> simp [hlate, hpast, hbefore]

theorem worked_nil : worked [] startedCol now = ∅ := by
  ext x
  simp [worked, latestAt]

/-- A trail works at finitely many moments, as many as the loop has measured. -/
theorem finite_worked_and_banked (startedCol finishedCol : ColumnId) (hordered : Ordered trail) (hnow : ∀ t ∈ trail, t.recordedAt ≤ now) :
    (worked trail startedCol now).Finite ∧
      (readTrail startedCol finishedCol trail).banked now = (worked trail startedCol now).ncard := by
  induction trail using List.reverseRecOn generalizing now with
  | nil => simp [worked_nil, readTrail, Reading.start, Reading.banked]
  | append_singleton trail t ih =>
    obtain ⟨hearlier, hlast⟩ := ordered_concat.mp hordered
    obtain ⟨hfinite, hbanked⟩ := ih hearlier hlast
    have hbefore : t.recordedAt ≤ now := hnow t (by simp)
    rw [worked_concat hbefore, readTrail_concat, pass_banked, hbanked]
    split_ifs with hentering
    · have hdisjoint : Disjoint (worked trail startedCol t.recordedAt) (Set.Ico t.recordedAt now) :=
        Set.disjoint_left.mpr fun x hx hin ↦ absurd hx.1 (not_lt.mpr hin.1)
      have hsize : ((Set.Ico t.recordedAt now).ncard : ℤ) = now - t.recordedAt := by
        rw [← Finset.coe_Ico, Set.ncard_coe_finset, Int.card_Ico]
        exact Int.toNat_of_nonneg (Int.sub_nonneg_of_le hbefore)
      refine ⟨hfinite.union (Set.finite_Ico _ _), ?_⟩
      rw [Set.ncard_union_eq hdisjoint hfinite (Set.finite_Ico _ _), Nat.cast_add, hsize]
    · rw [Set.union_empty, add_zero]
      exact ⟨hfinite, rfl⟩

/-! ### Start and finish -/

/-- The first transition into the started column. -/
def firstEntry (startedCol : ColumnId) (trail : List Transition) : Option Transition :=
  trail.find? fun t ↦ t.destination == some startedCol

/-- A start that is missing is put on record on entering. -/
theorem startedAt_pass {reading : Reading} (hbegun : reading.Begun) (t : Transition) :
    (reading.pass startedCol finishedCol t).startedAt =
      reading.startedAt.or (if t.destination = some startedCol then some t.recordedAt else none) := by
  rw [pass_startedAt]
  cases hrunning : reading.runningSince.isSome with
  | false => split_ifs <;> simp_all
  | true =>
    obtain ⟨start, hstart⟩ := Option.isSome_iff_exists.mp (hbegun hrunning)
    simp [hstart]

/-- The start on record is the first entry. -/
theorem startedAt_readTrail : (readTrail startedCol finishedCol trail).startedAt =
    (firstEntry startedCol trail).map Transition.recordedAt := by
  induction trail using List.reverseRecOn with
  | nil => rfl
  | append_singleton trail t ih =>
    rw [readTrail_concat, startedAt_pass (begun_readTrail trail), ih, firstEntry, firstEntry, List.find?_append,
      Option.map_or]
    congr 1
    split_ifs with hentering <;> simp [hentering]

/-- There is a first entry exactly when some transition is into the started column. -/
theorem isSome_startedAt_iff (startedCol finishedCol : ColumnId) : (readTrail startedCol finishedCol trail).startedAt.isSome = true ↔
    ∃ t ∈ trail, t.destination = some startedCol := by
  rw [startedAt_readTrail, Option.isSome_map, firstEntry, List.find?_isSome]
  simp only [beq_iff_eq]

/-- Every transition into the started column is at or after the start. -/
theorem start_le_of_mem (hordered : Ordered trail) {start : Instant}
    (hstart : (readTrail startedCol finishedCol trail).startedAt = some start) {t : Transition} (ht : t ∈ trail)
    (hentering : t.destination = some startedCol) : start ≤ t.recordedAt := by
  rw [startedAt_readTrail, firstEntry] at hstart
  obtain ⟨first, hfirst, rfl⟩ := Option.map_eq_some_iff.mp hstart
  obtain ⟨-, before, after, rfl, hbefore⟩ := List.find?_eq_some_iff_append.mp hfirst
  rcases List.mem_append.mp ht with ht | ht
  · exact absurd (hbefore t ht) (by simp [hentering])
  · rcases List.mem_cons.mp ht with rfl | ht
    · exact le_rfl
    · exact (List.pairwise_cons.mp (List.pairwise_append.mp hordered).2.1).1 t ht

/-- A moment that is worked at is at or after the start, and before the finish. -/
theorem worked_within (hordered : Ordered trail) {start : Instant}
    (hstart : (readTrail startedCol finishedCol trail).startedAt = some start) (hcolumns : startedCol ≠ finishedCol)
    {x : Instant} (hx : x ∈ worked trail startedCol now) :
    start ≤ x ∧ x < (readTrail startedCol finishedCol trail).finishedAt.getD now := by
  obtain ⟨hbefore, hlatest⟩ := hx
  obtain ⟨t, ht, hentering⟩ := Option.bind_eq_some_iff.mp hlatest
  obtain ⟨hmem, hpast⟩ := List.mem_filter.mp (List.mem_of_getLast? ht)
  refine ⟨(start_le_of_mem hordered hstart hmem hentering).trans (of_decide_eq_true hpast), ?_⟩
  rcases List.eq_nil_or_concat trail with rfl | ⟨earlier, last, rfl⟩
  · cases hmem
  · rw [List.concat_eq_append] at hlatest ⊢
    rw [readTrail_concat, pass_finishedAt]
    split_ifs with hfinished
    · by_contra hlate
      have hlast : last.recordedAt ≤ x := not_lt.mp hlate
      rw [latestAt_concat, if_pos hlast, Option.bind_some, hfinished] at hlatest
      exact hcolumns (Option.some.inj hlatest).symm
    · exact hbefore

/-! ### Passing over what changes nothing -/

/-- Entering the started column again goes unnoticed. -/
theorem pass_reentered {reading : Reading} (hcolumns : startedCol ≠ finishedCol)
    (hrunning : reading.runningSince.isSome = true) (hunfinished : reading.finishedAt = none) (again : Instant) :
    reading.pass startedCol finishedCol ⟨again, some startedCol⟩ = reading := by
  obtain ⟨startedAt, finishedAt, total, runningSince⟩ := reading
  obtain ⟨since, rfl⟩ := Option.isSome_iff_exists.mp hrunning
  obtain rfl : finishedAt = none := hunfinished
  simp [Reading.pass, Reading.bank, Reading.begin, hcolumns]

theorem timings_reentered {past later : List Transition} (hcolumns : startedCol ≠ finishedCol)
    (hpast : whereabouts past = some startedCol) (again now : Instant) :
    timings (past ++ ⟨again, some startedCol⟩ :: later) startedCol finishedCol now =
      timings (past ++ later) startedCol finishedCol now := by
  have hrunning : (readTrail startedCol finishedCol past).runningSince.isSome = true :=
    (isRunning_readTrail past).mpr hpast
  have hunfinished : (readTrail startedCol finishedCol past).finishedAt = none :=
    (isFinished_readTrail past).mpr fun hfinished ↦ hcolumns (Option.some.inj (hpast.symm.trans hfinished))
  have hread (rest : List Transition) : readTrail startedCol finishedCol (past ++ rest) =
      rest.foldl (Reading.pass startedCol finishedCol) (readTrail startedCol finishedCol past) :=
    List.foldl_append ..
  rw [timings_eq, timings_eq, hread, hread, List.foldl_cons, pass_reentered hcolumns hrunning hunfinished]

/-! ### What is reported -/

/-- The clock runs from a transition on. -/
theorem exists_of_runningSince {since : Instant}
    (h : (readTrail startedCol finishedCol trail).runningSince = some since) : ∃ t ∈ trail, t.recordedAt = since := by
  induction trail using List.reverseRecOn with
  | nil => cases h
  | append_singleton trail t ih =>
    have hentering : t.destination = some startedCol := by
      rw [readTrail_concat] at h
      exact pass_isRunning.mp (by rw [h, Option.isSome_some])
    cases hrunning : (readTrail startedCol finishedCol trail).runningSince with
    | some before =>
      have hsame : before = since := by
        rw [readTrail_concat] at h
        simpa [Reading.pass, Reading.bank, Reading.begin, hrunning, hentering] using h
      obtain ⟨t, ht, hat⟩ := ih (hsame ▸ hrunning)
      exact ⟨t, List.mem_append_left _ ht, hat⟩
    | none =>
      rw [readTrail_concat] at h
      refine ⟨t, by simp, ?_⟩
      simpa [Reading.pass, Reading.bank, Reading.begin, hrunning, hentering] using h

/-- From the last transition on, the time taken is the number of moments worked at. -/
theorem timeTaken_eq (hordered : Ordered trail) (hnow : ∀ t ∈ trail, t.recordedAt ≤ now) :
    (timings trail startedCol finishedCol now).timeTaken =
      if (readTrail startedCol finishedCol trail).startedAt.isSome = true then
        some ((worked trail startedCol now).ncard : ℤ)
      else none := by
  obtain ⟨-, hbanked⟩ := finite_worked_and_banked startedCol finishedCol hordered hnow
  split_ifs with hstarted
  · rw [timings_eq, timeTaken_timings hstarted, hbanked]
    intro since hsince
    obtain ⟨t, ht, rfl⟩ := exists_of_runningSince hsince
    exact hnow t ht
  · rw [timings_eq, Reading.timings]
    simp [Option.not_isSome_iff_eq_none.mp hstarted]

/-- The time taken is at most the time from the start to the finish, or to now. -/
theorem timeTaken_le_wallClock (hordered : Ordered trail) (hnow : ∀ t ∈ trail, t.recordedAt ≤ now)
    (hcolumns : startedCol ≠ finishedCol) {taken : ℤ}
    (htaken : (timings trail startedCol finishedCol now).timeTaken = some taken) :
    ∃ wall, (timings trail startedCol finishedCol now).wallClock = some wall ∧ 0 ≤ taken ∧ taken ≤ wall := by
  rw [timeTaken_eq hordered hnow] at htaken
  split_ifs at htaken with hstarted
  obtain ⟨start, hstart⟩ := Option.isSome_iff_exists.mp hstarted
  obtain rfl := Option.some.inj htaken
  refine ⟨_, by rw [timings_eq, Reading.timings, hstart]; rfl, Int.natCast_nonneg _, ?_⟩
  have hwithin : worked trail startedCol now ⊆
      Set.Ico start ((readTrail startedCol finishedCol trail).finishedAt.getD now) :=
    fun x hx ↦ worked_within hordered hstart hcolumns hx
  have hcard := Set.ncard_le_ncard hwithin (Set.finite_Ico _ _)
  rw [← Finset.coe_Ico, Set.ncard_coe_finset, Int.card_Ico] at hcard
  calc ((worked trail startedCol now).ncard : ℤ)
      ≤ (((readTrail startedCol finishedCol trail).finishedAt.getD now - start).toNat : ℤ) := Int.ofNat_le.mpr hcard
    _ = max ((readTrail startedCol finishedCol trail).finishedAt.getD now - start) 0 := Int.toNat_eq_max _

/-- For every trail, oldest first and up to now: the time taken is the length of the spells during which the latest
transition was into the started column, an open one counted up to now. There is one as soon as a transition was into that
column, and it is at most the wall clock. A finish is on record exactly when the trail leaves the task in the finished
column. Another transition into the started column during a spell changes nothing. -/
theorem timings_exact (trail : List Transition) (startedCol finishedCol : ColumnId) (now : Instant)
    (hcolumns : startedCol ≠ finishedCol) (hordered : Ordered trail) (hnow : ∀ t ∈ trail, t.recordedAt ≤ now) :
    (∃ spells, MaximalSpells (worked trail startedCol now) spells ∧
      ∀ taken, (timings trail startedCol finishedCol now).timeTaken = some taken → taken = totalLength spells) ∧
    ((timings trail startedCol finishedCol now).timeTaken.isSome = true ↔
      ∃ t ∈ trail, t.destination = some startedCol) ∧
    (∀ taken, (timings trail startedCol finishedCol now).timeTaken = some taken →
      ∃ wall, (timings trail startedCol finishedCol now).wallClock = some wall ∧ 0 ≤ taken ∧ taken ≤ wall) ∧
    ((timings trail startedCol finishedCol now).finishedAt.isSome = true ↔ whereabouts trail = some finishedCol) ∧
    ∀ past later again, trail = past ++ later → whereabouts past = some startedCol →
      timings (past ++ ⟨again, some startedCol⟩ :: later) startedCol finishedCol now =
        timings trail startedCol finishedCol now := by
  refine ⟨?_, ?_, fun _ htaken ↦ timeTaken_le_wallClock hordered hnow hcolumns htaken, ?_, ?_⟩
  · obtain ⟨hfinite, -⟩ := finite_worked_and_banked startedCol finishedCol hordered hnow
    obtain ⟨spells, hspells⟩ := exists_maximalSpells hfinite
    refine ⟨spells, hspells, fun taken htaken ↦ ?_⟩
    rw [timeTaken_eq hordered hnow] at htaken
    split_ifs at htaken
    rw [hspells.total_eq]
    exact (Option.some.inj htaken).symm
  · rw [timeTaken_eq hordered hnow, ← isSome_startedAt_iff startedCol finishedCol]
    split_ifs with hstarted <;> simp [hstarted]
  · have hnone : (readTrail startedCol finishedCol trail).finishedAt = none ↔ whereabouts trail ≠ some finishedCol :=
      isFinished_readTrail trail
    exact (Option.isSome_iff_ne_none.trans (not_congr hnone)).trans not_ne_iff
  · rintro past later again rfl hpast
    exact timings_reentered hcolumns hpast again now

/-- Started at 100, paused, started again at 200 and finished at 240. -/
def pausedOnce : List Transition := [⟨100, some 1⟩, ⟨160, some 2⟩, ⟨200, some 1⟩, ⟨240, some 3⟩]

theorem timings_exact_pausedOnce : (timings pausedOnce 1 3 300).timeTaken = some 100 ∧
    (∃ spells, MaximalSpells (worked pausedOnce 1 300) spells ∧ 100 = totalLength spells) ∧
      timings [⟨100, some 1⟩, ⟨130, some 1⟩, ⟨160, some 2⟩, ⟨200, some 1⟩, ⟨240, some 3⟩] 1 3 300 =
        timings pausedOnce 1 3 300 := by
  have hordered : Ordered pausedOnce := by
    simp [Ordered, pausedOnce]
  have hnow : ∀ t ∈ pausedOnce, t.recordedAt ≤ 300 := by decide
  obtain ⟨⟨spells, hspells, htotal⟩, -, -, -, hagain⟩ := timings_exact pausedOnce 1 3 300 (by decide) hordered hnow
  have htaken : (timings pausedOnce 1 3 300).timeTaken = some 100 := by decide
  exact ⟨htaken, ⟨spells, hspells, htotal 100 htaken⟩,
    hagain [⟨100, some 1⟩] [⟨160, some 2⟩, ⟨200, some 1⟩, ⟨240, some 3⟩] 130 rfl rfl⟩

end Taskologic.Core
