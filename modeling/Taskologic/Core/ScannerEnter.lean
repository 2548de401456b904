import Taskologic.Core.DetectorAccount

/-!
# One Enter behind a scan

A scanner sends Enter behind what it scanned, and a detector that is told so swallows it. `OneEnterPerUnit` is what the
application relies on: outside a control frame an Enter reaches it, or ended the unit the detector reports, or is the
first key behind a unit that a character ended. An Enter that ends a task code too early is the scanner's Enter, yet
the detector waits for another one, so the next Enter is lost: `oneEnterPerUnit_iff` says that this is the only way to
lose one.
-/

set_option autoImplicit false
set_option relaxedAutoImplicit false

namespace Taskologic.Core

/-! ### Enter keys -/

/-- A scan with any result, or a control frame. -/
def Feed.IsUnit : Feed → Prop
  | .scan _ | .frame _ => True
  | .pass _ | .held => False

/-- The Enter key that was fed reaches the application, behind what was held. -/
def Feed.HandsOnEnter (fed : Feed) : Prop := ∃ keys, fed = .pass (keys ++ [.enter])

namespace ScanDetector

/-- A control frame is open when a key comes. -/
def FrameOpen (d : ScanDetector) (now : ℕ) : Prop := ∃ dash, (d.expire now).1.phase = .frame dash

/-- A task code is being read when a key comes. -/
def MidCode (d : ScanDetector) (now : ℕ) : Prop := ∃ total, (d.expire now).1.phase = .body total

/-- Each Enter outside a control frame reaches the application, or ends a unit, or is the first key behind a unit that
no Enter ended. -/
def OneEnterPerUnit (d : ScanDetector) (keys : List (ScanKey × ℕ)) : Prop :=
  ∀ before now after, keys = before ++ (.enter, now) :: after → ¬ (d.after before).FrameOpen now →
    ((d.after before).push .enter now).2.HandsOnEnter ∨
      ((d.after before).push .enter now).2.IsUnit ∨
      ∃ earlier c t, before = earlier ++ [(.char c, t)] ∧ ((d.after earlier).push (.char c) t).2.IsUnit

/-- No Enter in the middle of a task code has another one directly behind it. -/
def NoEnterBehindEnter (d : ScanDetector) (keys : List (ScanKey × ℕ)) : Prop :=
  ∀ before t now after, keys = before ++ (.enter, t) :: (.enter, now) :: after → ¬ (d.after before).MidCode t

/-! ### One key -/

section OneKey

variable {d : ScanDetector} {pending : List ScanKey}

/-- A detector of a scanner that sends Enter, after some keys. -/
structure Ready (d : ScanDetector) : Prop where
  holds : ∃ pending, d.Holds pending
  enterTerminates : d.enterTerminates = true

theorem ready_configured (scannerPrefix : Text) (timeoutMs frameTimeoutMs : ℕ) :
    (configured scannerPrefix true timeoutMs frameTimeoutMs).Ready :=
  ⟨⟨[], holds_configured scannerPrefix true timeoutMs frameTimeoutMs⟩, rfl⟩

theorem Ready.push (h : d.Ready) (key : ScanKey) (now : ℕ) : (d.push key now).1.Ready := by
  obtain ⟨pending, hholds⟩ := h.holds
  obtain ⟨pieces, pending', -, hnext, hsettings, -⟩ := accounts_call hholds (.key key now)
  have hterminates : (d.push key now).1.enterTerminates = d.enterTerminates :=
    congrArg (fun settings ↦ settings.2.1) hsettings
  exact ⟨⟨pending', hnext⟩, hterminates.trans h.enterTerminates⟩

theorem Ready.after (h : d.Ready) (keys : List (ScanKey × ℕ)) : (d.after keys).Ready := by
  induction keys generalizing d with
  | nil => exact h
  | cons first rest ih => exact ih (h.push first.1 first.2)

theorem Ready.expire (h : d.Ready) (now : ℕ) : (d.expire now).1.Ready := by
  obtain ⟨pending, hholds⟩ := h.holds
  obtain ⟨pieces, pending', -, hnext, hsettings, -⟩ := accounts_call hholds (.tick now)
  have hterminates : (d.expire now).1.enterTerminates = d.enterTerminates :=
    congrArg (fun settings ↦ settings.2.1) hsettings
  exact ⟨⟨pending', hnext⟩, hterminates.trans h.enterTerminates⟩

theorem isUnit_withStale {stale : Expired} {fed : Feed} (h : fed.IsUnit) : (withStale stale fed).IsUnit := by
  cases fed with
  | scan result => cases stale <;> trivial
  | frame body => cases stale <;> trivial
  | pass keys => cases h
  | held => cases h

theorem handsOnEnter_withStale {stale : Expired} {fed : Feed} (h : fed.HandsOnEnter) :
    (withStale stale fed).HandsOnEnter := by
  obtain ⟨keys, rfl⟩ := h
  cases stale with
  | keys more => exact ⟨more ++ keys, by rw [withStale, List.append_assoc]⟩
  | _ => exact ⟨keys, rfl⟩

/-- After a character, only behind a unit is an Enter swallowed. -/
theorem isUnit_of_pushChar {c : Char} {now : ℕ} (h : (d.pushChar c now).1.swallowEnter = true) :
    (d.pushChar c now).2.IsUnit := by
  unfold pushChar at h ⊢
  cases hphase : d.phase with
  | idle => simp [hphase] at h
  | inPrefix n =>
    simp only [hphase] at h
    split_ifs at h <;> simp [hold] at h
  | prefixDone =>
    simp only [hphase] at h
    split_ifs at h <;> simp [hold] at h
  | halfMagic =>
    simp only [hphase] at h
    split_ifs at h <;> simp [hold] at h
  | version =>
    simp only [hphase, pushVersion] at h
    split at h <;> simp [reset] at h
  | body total =>
    simp only [hphase, pushBody] at h ⊢
    split_ifs at h ⊢
    trivial
  | halfFrame =>
    simp only [hphase] at h
    split_ifs at h <;> simp [hold] at h
  | frameOpen =>
    simp only [hphase] at h
    split_ifs at h <;> simp [hold] at h
  | frame dash =>
    simp only [hphase, pushFrame] at h ⊢
    split_ifs at h ⊢
    trivial

/-- An Enter reaches the application, ends a task code, is left out of a frame, or is swallowed. -/
theorem pushEnter_cases (d : ScanDetector) (now : ℕ) :
    (d.swallowEnter = true ∧ (d.pushEnter now).1.swallowEnter = false ∧ (d.pushEnter now).2 = .held) ∨
      (d.swallowEnter = false ∧
        ((∃ total, d.phase = .body total) ∧ (d.pushEnter now).2.IsUnit ∧
            (d.pushEnter now).1.swallowEnter = d.enterTerminates ∨
          (d.pushEnter now).1.swallowEnter = false ∧
            ((∃ dash, d.phase = .frame dash) ∨ (d.pushEnter now).2.HandsOnEnter))) := by
  unfold pushEnter
  by_cases hswallow : d.swallowEnter = true
  · rw [if_pos hswallow]
    exact .inl ⟨hswallow, rfl, rfl⟩
  · rw [if_neg hswallow]
    have hoff : d.swallowEnter = false := by simpa using hswallow
    refine .inr ⟨hoff, ?_⟩
    cases hphase : d.phase with
    | idle => exact .inr ⟨hoff, .inr ⟨[], rfl⟩⟩
    | body total => exact .inl ⟨⟨total, rfl⟩, trivial, rfl⟩
    | frame dash => exact .inr ⟨hoff, .inl ⟨dash, rfl⟩⟩
    | _ => exact .inr ⟨hoff, .inr ⟨d.held.map .char, rfl⟩⟩

/-- What is swallowed behind a key was announced by that key. -/
theorem isUnit_of_swallowEnter {key : ScanKey} {now : ℕ}
    (hswallow : (d.push key now).1.swallowEnter = true) :
    (d.push key now).2.IsUnit ∧ (key = .enter → d.MidCode now) := by
  cases key with
  | char c =>
    refine ⟨?_, fun heq ↦ by cases heq⟩
    rw [push_eq] at hswallow ⊢
    exact isUnit_withStale (isUnit_of_pushChar hswallow)
  | enter =>
    rw [push_eq] at hswallow ⊢
    change ((d.expire now).1.pushEnter now).1.swallowEnter = true at hswallow
    rcases (d.expire now).1.pushEnter_cases now with ⟨-, hoff, -⟩ | ⟨-, ⟨hbody, hunit, -⟩ | ⟨hoff, -⟩⟩
    · rw [hoff] at hswallow
      cases hswallow
    · exact ⟨isUnit_withStale hunit, fun _ ↦ hbody⟩
    · rw [hoff] at hswallow
      cases hswallow

/-- An Enter that ends a task code is followed by one that is swallowed. -/
theorem Ready.swallowEnter_of_midCode (h : d.Ready) {now : ℕ} (hmid : d.MidCode now) :
    (d.push .enter now).1.swallowEnter = true := by
  obtain ⟨total, hphase⟩ := hmid
  obtain ⟨pending, hholds⟩ := (h.expire now).holds
  have hoff : (d.expire now).1.swallowEnter ≠ true := by
    intro hon
    rw [hholds.swallowEnter hon] at hphase
    cases hphase
  rw [push_eq]
  change ((d.expire now).1.pushEnter now).1.swallowEnter = true
  rw [pushEnter, if_neg hoff, hphase]
  exact (h.expire now).enterTerminates

/-- An Enter is swallowed while nothing is in progress. -/
theorem Ready.push_of_swallowEnter (h : d.Ready) (hswallow : d.swallowEnter = true) (now : ℕ) :
    ¬ d.FrameOpen now ∧ (d.push .enter now).2 = .held := by
  obtain ⟨pending, hholds⟩ := h.holds
  have hidle := hholds.swallowEnter hswallow
  have hexpire : d.expire now = (d, .nothing) := by
    unfold ScanDetector.expire
    rw [hidle]
    cases d.since <;> rfl
  refine ⟨?_, ?_⟩
  · rintro ⟨dash, hframe⟩
    rw [hexpire, hidle] at hframe
    cases hframe
  · rw [push_eq, hexpire]
    change withStale .nothing (d.pushEnter now).2 = .held
    rw [pushEnter, if_pos hswallow]
    rfl

/-- Outside a frame an Enter that is not swallowed reaches the application or ends a unit. -/
theorem handsOnEnter_or_isUnit {now : ℕ} (hframe : ¬ d.FrameOpen now) (hoff : (d.expire now).1.swallowEnter = false) :
    (d.push .enter now).2.HandsOnEnter ∨ (d.push .enter now).2.IsUnit := by
  rw [push_eq]
  change (withStale _ ((d.expire now).1.pushEnter now).2).HandsOnEnter ∨ (withStale _ _).IsUnit
  rcases (d.expire now).1.pushEnter_cases now with ⟨hon, -⟩ | ⟨-, ⟨-, hunit, -⟩ | ⟨-, hopen | hhands⟩⟩
  · rw [hoff] at hon
    cases hon
  · exact .inr (isUnit_withStale hunit)
  · exact absurd hopen hframe
  · exact .inl (handsOnEnter_withStale hhands)

end OneKey

/-! ### A stream of keys -/

theorem after_concat (d : ScanDetector) (keys : List (ScanKey × ℕ)) (key : ScanKey) (now : ℕ) :
    d.after (keys ++ [(key, now)]) = ((d.after keys).push key now).1 := by
  induction keys generalizing d with
  | nil => rfl
  | cons first rest ih => exact ih (d.push first.1 first.2).1

/-- For every stream of keys to a detector of a scanner that sends Enter: at most one Enter is swallowed for each unit
exactly when no Enter in the middle of a task code has another one directly behind it. -/
theorem oneEnterPerUnit_iff (scannerPrefix : Text) (timeoutMs frameTimeoutMs : ℕ) (keys : List (ScanKey × ℕ)) :
    (configured scannerPrefix true timeoutMs frameTimeoutMs).OneEnterPerUnit keys ↔
      (configured scannerPrefix true timeoutMs frameTimeoutMs).NoEnterBehindEnter keys := by
  have hready := ready_configured scannerPrefix timeoutMs frameTimeoutMs
  have hfresh : (configured scannerPrefix true timeoutMs frameTimeoutMs).swallowEnter = false := rfl
  generalize configured scannerPrefix true timeoutMs frameTimeoutMs = d at hready hfresh ⊢
  constructor
  · rintro hone before t now after rfl hmid
    have hsplit : before ++ (.enter, t) :: (.enter, now) :: after =
        (before ++ [(.enter, t)]) ++ (.enter, now) :: after := by simp
    have hswallow : (d.after (before ++ [(.enter, t)])).swallowEnter = true := by
      rw [after_concat]
      exact (hready.after before).swallowEnter_of_midCode hmid
    obtain ⟨hframe, hheld⟩ := (hready.after (before ++ [(.enter, t)])).push_of_swallowEnter hswallow now
    rcases hone _ now after hsplit hframe with ⟨keys, hpass⟩ | hunit | ⟨earlier, c, t', hbefore, -⟩
    · rw [hheld] at hpass
      cases hpass
    · rw [hheld] at hunit
      exact hunit
    · have hlast := (List.append_inj' hbefore rfl).2
      cases hlast
  · rintro hnone before now after rfl hframe
    by_cases hswallow : (d.after before).swallowEnter = true
    · rcases List.eq_nil_or_concat' before with rfl | ⟨earlier, ⟨key, t⟩, rfl⟩
      · rw [after_nil, hfresh] at hswallow
        cases hswallow
      · rw [after_concat] at hswallow
        obtain ⟨hunit, hmid⟩ := isUnit_of_swallowEnter hswallow
        cases key with
        | char c => exact .inr (.inr ⟨earlier, c, t, rfl, hunit⟩)
        | enter => exact absurd (hmid rfl) (hnone earlier t now after (by simp))
    · have hoff : ((d.after before).expire now).1.swallowEnter = false := by
        rcases (d.after before).expire_cases now with hsame | ⟨hreset, -⟩
        · rw [hsame]
          simpa using hswallow
        · rw [hreset]
          simpa [reset] using hswallow
      rcases handsOnEnter_or_isUnit hframe hoff with hhands | hunit
      · exact .inl hhands
      · exact .inr (.inl hunit)

/-- The scanner cuts a code short and sends its Enter; the Enter that somebody presses next is lost. -/
theorem enter_is_lost :
    ¬ (configured [] true defaultTimeoutMs defaultFrameTimeoutMs).OneEnterPerUnit
      (atOnce ((text "..1FABC").map .char ++ [.enter, .enter])) := by
  let d := configured [] true defaultTimeoutMs defaultFrameTimeoutMs
  let before := atOnce ((text "..1FABC").map .char ++ [.enter])
  have hidle : ((d.after before).expire 0).1.phase = .idle := by decide
  have hheld : ((d.after before).push .enter 0).2 = .held := by decide
  have hframe : ¬ (d.after before).FrameOpen 0 := by
    rintro ⟨dash, hopen⟩
    rw [hidle] at hopen
    cases hopen
  intro hone
  rcases hone before 0 [] rfl hframe with ⟨keys, hpass⟩ | hunit | ⟨earlier, c, t, hbefore, -⟩
  · rw [hheld] at hpass
    cases hpass
  · rw [hheld] at hunit
    exact hunit
  · have hlast : before.getLast? = some (.char c, t) := by
      rw [hbefore]
      exact List.getLast?_concat
    have henter : before.getLast? = some (.enter, 0) := by decide
    rw [henter] at hlast
    cases hlast

end ScanDetector

end Taskologic.Core
