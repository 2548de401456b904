import Taskologic.Core.NextFiring

/-!
# Repetitions around a clock change

`RepeatSpec.nextFireAfter` compares what the wall clock shows and converts the reading it finds afterwards.
Where the clock is put back or skips a day, a reading later than what it shows now can mean a moment already
past. `lt_nextFireAfter_iff` is when it does not. Asked again at or after each firing as long as that is so, a
repetition fires later each time and at no reading twice (`pairwise_firings`).
-/

set_option autoImplicit false
set_option relaxedAutoImplicit false

namespace Taskologic.Core

/-! ### Clocks as documented -/

namespace Zone

/-- The moments of the calendar at which the clock shows a reading. -/
def showing (zone : Zone) (naive : WallClock) : Set Instant :=
  {moment | inCalendar moment = true ∧ zone.toLocal moment = naive}

/-- A reading means the one moment it is shown at, or the earlier and the later of two, or none. -/
def AsDocumented (zone : Zone) : Prop :=
  ∀ naive, match zone.fromLocal naive with
    | .single moment => zone.showing naive = {moment}
    | .ambiguous earliest latest => earliest < latest ∧ zone.showing naive = {earliest, latest}
    | .none => zone.showing naive = ∅

/-- The clock has shown a reading at no moment up to this one. -/
def StillToCome (zone : Zone) (after : Instant) (naive : WallClock) : Prop :=
  ∀ moment ∈ zone.showing naive, after < moment

/-- A reading is still to come. If the clock skips it, so is the one an hour later, and if it skips that
too, the reading taken for UTC is. -/
structure LeadsOn (zone : Zone) (after : Instant) (naive : WallClock) : Prop where
  reading : zone.StillToCome after naive
  hourLater : zone.showing naive = ∅ → zone.StillToCome after (naive + 3600)
  asUtc : zone.showing naive = ∅ → zone.showing (naive + 3600) = ∅ → after < naive

variable {zone : Zone} {after : Instant}

/-- The earliest moment of a reading is later exactly if the reading is still to come. -/
theorem lt_earliest_iff (hzone : zone.AsDocumented) {naive : WallClock} {moment : Instant}
    (h : (zone.fromLocal naive).earliest = some moment) :
    zone.showing naive ≠ ∅ ∧ (after < moment ↔ zone.StillToCome after naive) := by
  have hdoc := hzone naive
  cases hmeans : zone.fromLocal naive with
  | single only =>
    rw [hmeans] at h hdoc
    cases h
    rw [StillToCome, hdoc]
    simp
  | ambiguous earliest latest =>
    rw [hmeans] at h hdoc
    cases h
    rw [StillToCome, hdoc.2]
    have hlater (hlt : after < moment) : after < latest := hlt.trans hdoc.1
    exact ⟨(Set.insert_nonempty _ _).ne_empty, by simpa using hlater⟩
  | none =>
    rw [hmeans] at h
    cases h

theorem showing_eq_empty (hzone : zone.AsDocumented) {naive : WallClock}
    (h : (zone.fromLocal naive).earliest = none) : zone.showing naive = ∅ := by
  have hdoc := hzone naive
  cases hmeans : zone.fromLocal naive with
  | none =>
    rw [hmeans] at hdoc
    exact hdoc
  | single only =>
    rw [hmeans] at h
    cases h
  | ambiguous earliest latest =>
    rw [hmeans] at h
    cases h

theorem localToUtc_eq (naive : WallClock) :
    localToUtc zone naive =
      ((zone.fromLocal naive).earliest.getD ((zone.fromLocal (naive + 3600)).earliest.getD naive)) := by
  unfold localToUtc
  cases zone.fromLocal naive <;> rfl

/-- The moment of a reading is later exactly if the reading leads on. -/
theorem lt_localToUtc_iff (hzone : zone.AsDocumented) (naive : WallClock) :
    after < localToUtc zone naive ↔ zone.LeadsOn after naive := by
  rw [localToUtc_eq]
  cases hmeans : (zone.fromLocal naive).earliest with
  | some moment =>
    obtain ⟨hshown, hlater⟩ := @lt_earliest_iff zone after hzone _ _ hmeans
    rw [Option.getD_some, hlater]
    exact ⟨fun hcome ↦ ⟨hcome, fun hskipped ↦ absurd hskipped hshown, fun hskipped ↦ absurd hskipped hshown⟩,
      LeadsOn.reading⟩
  | none =>
    have hskipped := showing_eq_empty hzone hmeans
    have hcome : zone.StillToCome after naive := by
      intro moment hmoment
      rw [hskipped] at hmoment
      exact absurd hmoment (Set.notMem_empty moment)
    cases hhour : (zone.fromLocal (naive + 3600)).earliest with
    | some moment =>
      obtain ⟨hshown, hlater⟩ := @lt_earliest_iff zone after hzone _ _ hhour
      rw [Option.getD_none, Option.getD_some, hlater]
      exact ⟨fun hhourCome ↦ ⟨hcome, fun _ ↦ hhourCome, fun _ hskipped' ↦ absurd hskipped' hshown⟩,
        fun hleads ↦ hleads.hourLater hskipped⟩
    | none =>
      have hskipped' := showing_eq_empty hzone hhour
      have hcome' : zone.StillToCome after (naive + 3600) := by
        intro moment hmoment
        rw [hskipped'] at hmoment
        exact absurd hmoment (Set.notMem_empty moment)
      rw [Option.getD_none, Option.getD_none]
      exact ⟨fun hlt ↦ ⟨hcome, fun _ ↦ hcome', fun _ _ ↦ hlt⟩, fun hleads ↦ hleads.asUtc hskipped hskipped'⟩

/-- A clock that is set once, from one offset to another, at moments of the calendar. -/
def setOnce (change : Instant) (before later : ℤ) : Zone where
  toLocal moment := if moment < change then moment + before else moment + later
  fromLocal naive :=
    if inCalendar (naive - before) = true ∧ naive - before < change then
      if inCalendar (naive - later) = true ∧ change ≤ naive - later then
        .ambiguous (naive - before) (naive - later)
      else .single (naive - before)
    else if inCalendar (naive - later) = true ∧ change ≤ naive - later then .single (naive - later)
    else .none

theorem mem_showing_setOnce {change : Instant} {before later : ℤ} {naive : WallClock} {moment : Instant} :
    moment ∈ (setOnce change before later).showing naive ↔
      (inCalendar (naive - before) = true ∧ naive - before < change) ∧ moment = naive - before ∨
        (inCalendar (naive - later) = true ∧ change ≤ naive - later) ∧ moment = naive - later := by
  simp only [showing, Set.mem_ofPred_eq, setOnce]
  constructor
  · rintro ⟨hmoment, hreads⟩
    split_ifs at hreads with hearly
    · have heq : moment = naive - before := by rw [← hreads]; ring
      exact .inl ⟨heq ▸ ⟨hmoment, hearly⟩, heq⟩
    · have heq : moment = naive - later := by rw [← hreads]; ring
      exact .inr ⟨heq ▸ ⟨hmoment, not_lt.1 hearly⟩, heq⟩
  · rintro (⟨⟨hmoment, hearly⟩, rfl⟩ | ⟨⟨hmoment, hlate⟩, rfl⟩)
    · exact ⟨hmoment, by rw [if_pos hearly]; ring⟩
    · exact ⟨hmoment, by rw [if_neg (not_lt.2 hlate)]; ring⟩

theorem setOnce_asDocumented (change : Instant) (before later : ℤ) :
    (setOnce change before later).AsDocumented := by
  intro naive
  have hshowing := @mem_showing_setOnce change before later naive
  generalize hshow : (setOnce change before later).showing naive = showing at hshowing ⊢
  simp only [setOnce]
  by_cases hearly : inCalendar (naive - before) = true ∧ naive - before < change <;>
    by_cases hlate : inCalendar (naive - later) = true ∧ change ≤ naive - later
  · rw [if_pos hearly, if_pos hlate]
    refine ⟨lt_of_lt_of_le hearly.2 hlate.2, Set.ext fun moment ↦ ?_⟩
    simp [hshowing, hearly, hlate]
  · rw [if_pos hearly, if_neg hlate]
    refine Set.ext fun moment ↦ ?_
    simp [hshowing, hearly, hlate]
  · rw [if_neg hearly, if_pos hlate]
    refine Set.ext fun moment ↦ ?_
    simp [hshowing, hearly, hlate]
  · rw [if_neg hearly, if_neg hlate]
    refine Set.ext fun moment ↦ ?_
    simp [hshowing, hearly, hlate]

end Zone

/-! ### Firing after firing -/

namespace RepeatSpec

variable {spec : RepeatSpec} {zone : Zone}

/-- The reading a repetition is to fire at next. -/
def NextReading (spec : RepeatSpec) (zone : Zone) (after : Instant) (naive : WallClock) : Prop :=
  ∃ day, IsLeast (spec.firingDays (zone.toLocal after)) day ∧ naive = spec.firing day

/-- A moment at which the clock shows a date of the calendar. -/
def Askable (zone : Zone) (after : Instant) : Prop :=
  firstDay ≤ zone.toLocal after / 86400 ∧ zone.toLocal after / 86400 ≤ lastDay

/-- A repetition fires at the moment of its next reading. -/
theorem nextFireAfter_eq_some_iff (hvalid : spec.validate = .ok ()) (hheld : spec.rule.Held) {after : Instant}
    (hafter : Askable zone after) {fired : Instant} :
    spec.nextFireAfter zone after = some fired ↔
      ∃ naive, spec.NextReading zone after naive ∧ fired = localToUtc zone naive := by
  obtain ⟨day, hleast, hfires⟩ | ⟨hempty, hnone⟩ := nextFireAfter_cases hvalid hheld hafter.1 hafter.2
  · rw [hfires, Option.some_inj]
    constructor
    · rintro rfl
      exact ⟨_, ⟨day, hleast, rfl⟩, rfl⟩
    · rintro ⟨naive, ⟨day', hleast', rfl⟩, rfl⟩
      rw [hleast.unique hleast']
  · rw [hnone]
    constructor
    · intro h
      cases h
    · rintro ⟨naive, ⟨day, hleast, -⟩, -⟩
      exact absurd hleast.1 (hempty ▸ Set.notMem_empty day)

/-- A repetition fires later than the moment it is asked after exactly if its next reading leads on. -/
theorem lt_nextFireAfter_iff (hvalid : spec.validate = .ok ()) (hheld : spec.rule.Held)
    (hzone : zone.AsDocumented) {after : Instant} (hafter : Askable zone after) :
    (∀ fired, spec.nextFireAfter zone after = some fired → after < fired) ↔
      ∀ naive, spec.NextReading zone after naive → zone.LeadsOn after naive := by
  constructor
  · intro hlater naive hnext
    rw [← Zone.lt_localToUtc_iff hzone]
    exact hlater _ ((nextFireAfter_eq_some_iff hvalid hheld hafter).2 ⟨naive, hnext, rfl⟩)
  · intro hleads fired hfires
    obtain ⟨naive, hnext, rfl⟩ := (nextFireAfter_eq_some_iff hvalid hheld hafter).1 hfires
    exact (Zone.lt_localToUtc_iff hzone naive).2 (hleads naive hnext)

/-- One firing: when the repetition was asked, the reading it was to fire at, and when that was. -/
structure Firing where
  asked : Instant
  reading : WallClock
  fired : Instant

/-- The repetition was asked for a firing, and this was its answer. -/
structure Firing.Of (firing : Firing) (spec : RepeatSpec) (zone : Zone) : Prop where
  askable : Askable zone firing.asked
  next : spec.NextReading zone firing.asked firing.reading
  fires : spec.nextFireAfter zone firing.asked = some firing.fired

theorem Firing.Of.fired_eq {firing : Firing} (h : firing.Of spec zone) :
    spec.validate = .ok () → spec.rule.Held → firing.fired = localToUtc zone firing.reading := by
  intro hvalid hheld
  obtain ⟨naive, ⟨day, hleast, rfl⟩, hfired⟩ :=
    (nextFireAfter_eq_some_iff hvalid hheld h.askable).1 h.fires
  obtain ⟨day', hleast', hreading⟩ := h.next
  rw [hfired, hreading, hleast.unique hleast']

/-- Each firing is later than the moment asked after, and the next question comes no sooner. -/
theorem pairwise_fired {firings : List Firing} (hlater : ∀ firing ∈ firings, firing.asked < firing.fired)
    (hchain : firings.IsChain fun earlier later ↦ earlier.fired ≤ later.asked) :
    firings.Pairwise fun earlier later ↦ earlier.fired < later.fired := by
  induction firings with
  | nil => exact .nil
  | cons first rest ih =>
    have hrest := ih (fun firing hmem ↦ hlater firing (List.mem_cons_of_mem _ hmem)) hchain.tail
    refine .cons (fun firing hmem ↦ ?_) hrest
    cases rest with
    | nil => exact absurd hmem List.not_mem_nil
    | cons second rest =>
      have hasked : first.fired ≤ second.asked := (List.isChain_cons_cons.1 hchain).1
      have hsecond : first.fired < second.fired :=
        lt_of_le_of_lt hasked (hlater second (List.mem_cons_of_mem _ List.mem_cons_self))
      obtain rfl | hmem := List.mem_cons.1 hmem
      · exact hsecond
      · exact hsecond.trans (List.rel_of_pairwise_cons hrest hmem)

/-- Asked again at or after each firing, a repetition whose readings lead on fires later each time, and at
no reading twice. -/
theorem pairwise_firings (hvalid : spec.validate = .ok ()) (hheld : spec.rule.Held) (hzone : zone.AsDocumented)
    {firings : List Firing} (hrun : ∀ firing ∈ firings, firing.Of spec zone)
    (hleads : ∀ firing ∈ firings, zone.LeadsOn firing.asked firing.reading)
    (hchain : firings.IsChain fun earlier later ↦ earlier.fired ≤ later.asked) :
    firings.Pairwise fun earlier later ↦ earlier.fired < later.fired ∧ earlier.reading ≠ later.reading := by
  have hfired (firing : Firing) (hmem : firing ∈ firings) : firing.fired = localToUtc zone firing.reading :=
    (hrun firing hmem).fired_eq hvalid hheld
  have hlater (firing : Firing) (hmem : firing ∈ firings) : firing.asked < firing.fired := by
    rw [hfired firing hmem]
    exact (Zone.lt_localToUtc_iff hzone _).2 (hleads firing hmem)
  refine (pairwise_fired hlater hchain).imp_of_mem fun {earlier later} hmem hmem' hlt ↦ ⟨hlt, fun hsame ↦ ?_⟩
  rw [hfired earlier hmem, hfired later hmem', hsame] at hlt
  exact lt_irrefl _ hlt

/-- A repetition fires later than the moment it is asked after exactly if its next reading leads on; as long
as its readings do, it goes on firing later, and at no reading twice. -/
theorem firesForward_iff (hvalid : spec.validate = .ok ()) (hheld : spec.rule.Held) (hzone : zone.AsDocumented) :
    (∀ after, Askable zone after →
      ((∀ fired, spec.nextFireAfter zone after = some fired → after < fired) ↔
        ∀ naive, spec.NextReading zone after naive → zone.LeadsOn after naive)) ∧
    ∀ firings : List Firing, (∀ firing ∈ firings, firing.Of spec zone) →
      (∀ firing ∈ firings, zone.LeadsOn firing.asked firing.reading) →
      (firings.IsChain fun earlier later ↦ earlier.fired ≤ later.asked) →
      firings.Pairwise fun earlier later ↦ earlier.fired < later.fired ∧ earlier.reading ≠ later.reading :=
  ⟨fun _ hafter ↦ lt_nextFireAfter_iff hvalid hheld hzone hafter,
    fun _ hrun hleads hchain ↦ pairwise_firings hvalid hheld hzone hrun hleads hchain⟩

/-- Every day at a quarter to three at night. -/
def nightly : RepeatSpec := ⟨.everyDays 1 0, ⟨9900, by decide⟩, ⟨text "Europe/Berlin"⟩, none, none⟩

/-- Berlin around the end of summer time in 2026: at one o'clock UTC the clock is put back from three to
two. -/
def endOfSummer : Zone := Zone.setOnce (dayOf ⟨2026, 10, 25⟩ * 86400 + 3600) 7200 3600

theorem nightly_held : nightly.rule.Held := ⟨by decide, by decide, by decide⟩

/-- Two nights before the clock is put back, the next firing is later. -/
theorem firesForward_iff_before :
    ∃ fired, nightly.nextFireAfter endOfSummer (dayOf ⟨2026, 10, 23⟩ * 86400) = some fired ∧
      dayOf ⟨2026, 10, 23⟩ * 86400 < fired := by
  have hask : Askable endOfSummer (dayOf ⟨2026, 10, 23⟩ * 86400) := by
    constructor <;> decide +kernel
  have hfires : nightly.nextFireAfter endOfSummer (dayOf ⟨2026, 10, 23⟩ * 86400) =
      some (dayOf ⟨2026, 10, 23⟩ * 86400 + 2700) := by decide +kernel
  have hdate : endOfSummer.toLocal (dayOf ⟨2026, 10, 23⟩ * 86400) / 86400 = dayOf ⟨2026, 10, 23⟩ := by
    decide +kernel
  have hleast : IsLeast (nightly.firingDays (endOfSummer.toLocal (dayOf ⟨2026, 10, 23⟩ * 86400)))
      (dayOf ⟨2026, 10, 23⟩) :=
    ⟨⟨by decide +kernel, by decide +kernel⟩, fun day hday ↦ hdate ▸ date_le_of_canFire hday.2⟩
  have hcome (naive : WallClock) (hearly : dayOf ⟨2026, 10, 23⟩ * 86400 < naive - 7200)
      (hlate : dayOf ⟨2026, 10, 23⟩ * 86400 < naive - 3600) :
      endOfSummer.StillToCome (dayOf ⟨2026, 10, 23⟩ * 86400) naive := by
    intro moment hmoment
    obtain ⟨-, rfl⟩ | ⟨-, rfl⟩ := Zone.mem_showing_setOnce.1 hmoment
    · exact hearly
    · exact hlate
  refine ⟨_, hfires, (((firesForward_iff rfl nightly_held (Zone.setOnce_asDocumented _ _ _)).1 _ hask).2 ?_) _ hfires⟩
  rintro naive ⟨day, hday, rfl⟩
  rw [hday.unique hleast]
  exact ⟨hcome _ (by decide +kernel) (by decide +kernel), fun _ ↦ hcome _ (by decide +kernel) (by decide +kernel),
    fun _ _ ↦ by decide +kernel⟩

/-- Asked at midnight, the repetition fires at the first quarter to three of the night. Asked in the hour
that comes again, it fires at that moment once more, which is past by then. -/
theorem nightly_fires_back :
    nightly.validate = .ok () ∧ endOfSummer.AsDocumented ∧
      nightly.nextFireAfter endOfSummer (dayOf ⟨2026, 10, 25⟩ * 86400) =
        some (dayOf ⟨2026, 10, 25⟩ * 86400 + 2700) ∧
      nightly.nextFireAfter endOfSummer (dayOf ⟨2026, 10, 25⟩ * 86400 + 5400) =
        some (dayOf ⟨2026, 10, 25⟩ * 86400 + 2700) ∧
      ¬ ∀ fired, nightly.nextFireAfter endOfSummer (dayOf ⟨2026, 10, 25⟩ * 86400 + 5400) = some fired →
        dayOf ⟨2026, 10, 25⟩ * 86400 + 5400 < fired := by
  have hback : nightly.nextFireAfter endOfSummer (dayOf ⟨2026, 10, 25⟩ * 86400 + 5400) =
      some (dayOf ⟨2026, 10, 25⟩ * 86400 + 2700) := by decide +kernel
  refine ⟨rfl, Zone.setOnce_asDocumented _ _ _, by decide +kernel, hback, fun hlater ↦ ?_⟩
  exact absurd (hlater _ hback) (by decide +kernel)

end RepeatSpec

end Taskologic.Core
