import Taskologic.Core.Detector

/-!
# The detector loses no key

Every key that is fed to a detector is released as typing, belongs to one thing the detector
recognised, or is still held. `ScanDetector.Holds` says which keys a detector holds in each phase,
`ScanDetector.accounts_call` what one call does to them, and `ScanDetector.keys_accounted`
is the account of a whole run, with ticks of the clock anywhere between the keys.
-/

set_option autoImplicit false
set_option relaxedAutoImplicit false

namespace Taskologic.Core

/-! ### Pieces of a stream -/

/-- What a detector takes for more than typing. -/
inductive Recognised where
  | scan (result : Except ScanParseError ScanPayload)
  | frame (body : Text)
  | staleScan
  | staleFrame
  /-- The scanner's Enter behind a scan or a frame. -/
  | enter
  deriving DecidableEq, Repr

/-- Keys that belong together: typing that is handed on, or something recognised. -/
inductive Piece where
  | typing (keys : List ScanKey)
  | unit (what : Recognised) (keys : List ScanKey)
  deriving DecidableEq, Repr

namespace Piece

def keys : Piece → List ScanKey
  | typing keys => keys
  | unit _ keys => keys

def released : Piece → List ScanKey
  | typing keys => keys
  | unit _ _ => []

def recognised : Piece → List Recognised
  | typing _ => []
  | unit what _ => [what]

end Piece

/-- The keys something recognised is made of, for a scanner with this prefix. A version that is not
known ends a scan at once. -/
def Recognised.Fits (scannerPrefix : Text) (keys : List ScanKey) : Recognised → Prop
  | scan result =>
    (∃ typed ending, keys = (scannerPrefix ++ magic ++ typed).map .char ++ ending ∧
      (ending = [] ∨ ending = [.enter]) ∧
      result = ScanPayload.parse (magic ++ toAsciiUppercase typed)) ∨
    ∃ c, keys = (scannerPrefix ++ magic ++ [c]).map .char ∧ payloadLen c = none ∧
      result = .error (.unknownVersion c)
  | frame body =>
    ScanDetector.charsOf keys =
      scannerPrefix ++ ScanDetector.frameStart ++ body ++ [frameChar, frameChar]
  | staleScan => ∃ typed, keys = (scannerPrefix ++ magic ++ typed).map .char
  | staleFrame =>
    ∃ body, ScanDetector.charsOf keys = scannerPrefix ++ ScanDetector.frameStart ++ body
  | enter => keys = [.enter]

/-- A piece is made of the keys it should be made of. -/
def Piece.Fits (scannerPrefix : Text) : Piece → Prop
  | typing _ => True
  | unit what keys => what.Fits scannerPrefix keys

namespace ScanDetector

/-! ### Calls -/

/-- One call of a detector: a key, or a tick of the clock. -/
inductive Call where
  | key (key : ScanKey) (now : ℕ)
  | tick (now : ℕ)
  deriving DecidableEq, Repr

/-- The key a call feeds. -/
def Call.keys : Call → List ScanKey
  | .key stroke _ => [stroke]
  | .tick _ => []

/-- The detector after a call. -/
def call (d : ScanDetector) : Call → ScanDetector
  | .key key now => (d.push key now).1
  | .tick now => (d.expire now).1

/-- The keys an answer hands on. -/
def keysOfFeed : Feed → List ScanKey
  | .pass keys => keys
  | _ => []

/-- The keys an expiry hands on. -/
def keysOfExpired : Expired → List ScanKey
  | .keys keys => keys
  | _ => []

/-- The keys a call hands on. -/
def released (d : ScanDetector) : Call → List ScanKey
  | .key key now => keysOfFeed (d.push key now).2
  | .tick now => keysOfExpired (d.expire now).2

/-- What went stale and is not handed on. -/
def unitsOfExpired : Expired → List Recognised
  | .scan => [.staleScan]
  | .frame => [.staleFrame]
  | _ => []

/-- What an answer reports. A key that is swallowed is one when it is the scanner's Enter. -/
def unitsOfFeed (swallowed : Bool) : Feed → List Recognised
  | .scan result => [.scan result]
  | .frame body => [.frame body]
  | .held => if swallowed then [.enter] else []
  | .pass _ => []

/-- Whether a detector swallows this key as the scanner's Enter. -/
def swallows (d : ScanDetector) (key : ScanKey) : Bool := d.swallowEnter && key == .enter

/-- What a call recognises: something that went stale, then what the key completes. -/
def recognised (d : ScanDetector) : Call → List Recognised
  | .key key now =>
    unitsOfExpired (d.expire now).2 ++
      unitsOfFeed ((d.expire now).1.swallows key) (d.push key now).2
  | .tick now => unitsOfExpired (d.expire now).2

/-- A detector with the scanner's settings and nothing in progress. -/
def configured (scannerPrefix : Text) (enterTerminates : Bool) (timeoutMs frameTimeoutMs : ℕ) :
    ScanDetector :=
  (((new.withPrefix scannerPrefix).withEnterTerminates enterTerminates).withTimeoutMs
    timeoutMs).withFrameTimeoutMs frameTimeoutMs

/-! ### What is held -/

/-- The text a phase has matched. -/
def Matched (scannerPrefix : Text) (held : Text) : Phase → Prop
  | .idle => held = []
  | .inPrefix n => 0 < n ∧ n < scannerPrefix.length ∧ held = scannerPrefix.take n
  | .prefixDone => scannerPrefix ≠ [] ∧ held = scannerPrefix
  | .halfMagic => held = scannerPrefix ++ [magicChar]
  | .version => held = scannerPrefix ++ magic
  | .body total => total = v1Len ∧ held = scannerPrefix ++ magic
  | .halfFrame => held = scannerPrefix ++ [frameChar]
  | .frameOpen => held = scannerPrefix ++ [frameChar, frameChar]
  | .frame _ => held = scannerPrefix ++ frameStart

/-- The keys that were typed since what is in progress began. Inside a frame there may be Enter keys
among them, and what was typed of a scan is kept in upper case. -/
def Pending (held body : Text) (pending : List ScanKey) : Phase → Prop
  | .body _ =>
    ∃ typed, typed ≠ [] ∧ magicLen + typed.length < v1Len ∧ body = toAsciiUppercase typed ∧
      pending = (held ++ typed).map .char
  | .frame dash => charsOf pending = held ++ body ++ if dash then [frameChar] else []
  | _ => body = [] ∧ pending = held.map .char

/-- A detector holds these keys. -/
structure Holds (d : ScanDetector) (pending : List ScanKey) : Prop where
  matched : Matched d.scannerPrefix d.held d.phase
  pending : Pending d.held d.body pending d.phase
  swallowEnter : d.swallowEnter = true → d.phase = .idle
  since : d.phase ≠ .idle → d.since.isSome

/-- With nothing in progress nothing is held. -/
theorem holds_nil {d : ScanDetector} (hphase : d.phase = .idle) (hheld : d.held = [])
    (hbody : d.body = []) : d.Holds [] where
  matched := by rw [hphase]; exact hheld
  pending := by rw [hphase]; exact ⟨hbody, by rw [hheld]; rfl⟩
  swallowEnter := fun _ ↦ hphase
  since := fun h ↦ absurd hphase h

theorem holds_configured (scannerPrefix : Text) (enterTerminates : Bool)
    (timeoutMs frameTimeoutMs : ℕ) :
    (configured scannerPrefix enterTerminates timeoutMs frameTimeoutMs).Holds [] :=
  holds_nil rfl rfl rfl

theorem holds_reset (d : ScanDetector) : d.reset.Holds [] := holds_nil rfl rfl rfl

/-! ### One call -/

/-- The pieces `pieces` account for keys that were handed on and things that were recognised. -/
structure Explains (scannerPrefix : Text) (released : List ScanKey) (recognised : List Recognised)
    (pieces : List Piece) : Prop where
  released : pieces.flatMap Piece.released = released
  recognised : pieces.flatMap Piece.recognised = recognised
  fits : ∀ piece ∈ pieces, piece.Fits scannerPrefix

theorem explains_nil (scannerPrefix : Text) : Explains scannerPrefix [] [] [] :=
  ⟨rfl, rfl, fun _ h ↦ by cases h⟩

theorem explains_typing (scannerPrefix : Text) (keys : List ScanKey) :
    Explains scannerPrefix keys [] [.typing keys] :=
  ⟨by simp [Piece.released], rfl, fun _ h ↦ by rw [List.mem_singleton.mp h]; trivial⟩

theorem explains_unit {scannerPrefix : Text} {what : Recognised} {keys : List ScanKey}
    (hfits : what.Fits scannerPrefix keys) : Explains scannerPrefix [] [what] [.unit what keys] :=
  ⟨rfl, rfl, fun _ h ↦ by rw [List.mem_singleton.mp h]; exact hfits⟩

theorem Explains.append {scannerPrefix : Text} {released more : List ScanKey}
    {recognised others : List Recognised} {pieces later : List Piece}
    (hpieces : Explains scannerPrefix released recognised pieces)
    (hlater : Explains scannerPrefix more others later) :
    Explains scannerPrefix (released ++ more) (recognised ++ others) (pieces ++ later) where
  released := by rw [List.flatMap_append, hpieces.released, hlater.released]
  recognised := by rw [List.flatMap_append, hpieces.recognised, hlater.recognised]
  fits := fun piece h ↦ (List.mem_append.mp h).elim (hpieces.fits piece) (hlater.fits piece)

/-- How the scanner is set up, which no key changes. -/
def settings (d : ScanDetector) : Text × Bool × ℕ × ℕ :=
  (d.scannerPrefix, d.enterTerminates, d.timeoutMs, d.frameTimeoutMs)

/-- The account of a step from one detector to another that takes some keys in. -/
def Accounts (d : ScanDetector) (pending keys : List ScanKey) (released : List ScanKey)
    (recognised : List Recognised) (next : ScanDetector) : Prop :=
  ∃ pieces pending', pending ++ keys = pieces.flatMap Piece.keys ++ pending' ∧
    next.Holds pending' ∧ next.settings = d.settings ∧
    Explains d.scannerPrefix released recognised pieces

theorem accounts_of_holds {d next : ScanDetector} {pending keys : List ScanKey}
    (hnext : next.Holds (pending ++ keys)) (hsettings : next.settings = d.settings) :
    d.Accounts pending keys [] [] next :=
  ⟨[], _, rfl, hnext, hsettings, explains_nil _⟩

/-- Everything held is handed on together with a key, or with none. -/
theorem accounts_of_typing {d next : ScanDetector} {pending keys : List ScanKey}
    (hnext : next.Holds []) (hsettings : next.settings = d.settings) :
    d.Accounts pending keys (pending ++ keys) [] next :=
  ⟨[.typing (pending ++ keys)], [], by simp [Piece.keys], hnext, hsettings, explains_typing _ _⟩

/-- Everything held is handed on by itself. -/
theorem accounts_of_reset {d : ScanDetector} {pending : List ScanKey}
    (hkeys : pending = d.held.map .char) :
    d.Accounts pending [] (d.held.map .char) [] d.reset := by
  have htyping : d.Accounts pending [] (pending ++ []) [] d.reset :=
    accounts_of_typing d.holds_reset rfl
  rw [← hkeys]
  rwa [List.append_nil] at htyping

theorem accounts_of_unit {d next : ScanDetector} {pending keys : List ScanKey} {what : Recognised}
    (hfits : what.Fits d.scannerPrefix (pending ++ keys)) (hnext : next.Holds [])
    (hsettings : next.settings = d.settings) : d.Accounts pending keys [] [what] next :=
  ⟨[.unit what (pending ++ keys)], [], by simp [Piece.keys], hnext, hsettings, explains_unit hfits⟩

/-- One step after another. -/
theorem Accounts.trans {d middle next : ScanDetector} {pending keys more : List ScanKey}
    {released others : List ScanKey} {recognised units : List Recognised}
    (hfirst : d.Accounts pending keys released recognised middle)
    (hsecond : ∀ pending', middle.Holds pending' →
      middle.Accounts pending' more others units next) :
    d.Accounts pending (keys ++ more) (released ++ others) (recognised ++ units) next := by
  obtain ⟨pieces, pending', hkeys, hholds, hsettings, hpieces⟩ := hfirst
  obtain ⟨later, pending'', hmore, hnext, hsettings', hlater⟩ := hsecond pending' hholds
  rw [show middle.scannerPrefix = d.scannerPrefix from congrArg Prod.fst hsettings] at hlater
  refine ⟨pieces ++ later, pending'', ?_, hnext, hsettings'.trans hsettings, hpieces.append hlater⟩
  rw [← List.append_assoc, hkeys, List.append_assoc, hmore, List.flatMap_append, List.append_assoc]

section OneCall

variable {d : ScanDetector} {pending : List ScanKey}

/-- What is held in a phase that is neither a scan nor a frame is what was typed. -/
theorem Holds.pending_eq (hholds : d.Holds pending) (hbody : ∀ total, d.phase ≠ .body total)
    (hframe : ∀ dash, d.phase ≠ .frame dash) : d.body = [] ∧ pending = d.held.map .char := by
  have hpending := hholds.pending
  cases hphase : d.phase with
  | body total => exact absurd hphase (hbody total)
  | frame dash => exact absurd hphase (hframe dash)
  | _ =>
    rw [hphase] at hpending
    exact hpending

/-- What goes stale is handed on when it is a partial match and counts as recognised otherwise. -/
theorem accounts_expire (hholds : d.Holds pending) (now : ℕ) :
    d.Accounts pending [] (keysOfExpired (d.expire now).2) (unitsOfExpired (d.expire now).2)
      (d.expire now).1 := by
  have hmatched := hholds.matched
  have hpending := hholds.pending
  have hkept : d.Accounts pending [] [] [] d := accounts_of_holds (by simpa using hholds) rfl
  have hunit : ∀ {what : Recognised}, what.Fits d.scannerPrefix pending →
      d.Accounts pending [] [] [what] d.reset := by
    intro what hfits
    exact accounts_of_unit (by simpa using hfits) d.holds_reset rfl
  unfold expire
  cases d.since with
  | none => exact hkept
  | some t =>
    cases hphase : d.phase with
    | idle => exact hkept
    | frame dash =>
      rw [hphase] at hmatched hpending
      simp only
      split_ifs
      · exact hkept
      · refine hunit ⟨d.body ++ if dash then [frameChar] else [], ?_⟩
        rw [hpending, show d.held = _ from hmatched, List.append_assoc]
    | body total =>
      rw [hphase] at hmatched hpending
      simp only
      split_ifs
      · exact hkept
      · obtain ⟨typed, -, -, -, hkeys⟩ := hpending
        exact hunit ⟨typed, by rw [hkeys, hmatched.2]⟩
    | version =>
      rw [hphase] at hmatched hpending
      simp only
      split_ifs
      · exact hkept
      · refine hunit ⟨[], ?_⟩
        rw [hpending.2, show d.held = _ from hmatched, List.append_nil]
    | _ =>
      rw [hphase] at hpending
      simp only
      split_ifs
      · exact hkept
      · exact accounts_of_reset hpending.2

/-- An idle detector holds nothing. -/
theorem Holds.of_idle (hholds : d.Holds pending) (hidle : d.phase = .idle) :
    d.held = [] ∧ d.body = [] ∧ pending = [] := by
  obtain ⟨hbody, hpending⟩ := hholds.pending_eq (by simp [hidle]) (by simp [hidle])
  have hheld : d.held = [] := by simpa [hidle, Matched] using hholds.matched
  exact ⟨hheld, hbody, by rw [hpending, hheld]; rfl⟩

/-- The first character of a match is held, any other is handed on. -/
theorem accounts_start (hholds : d.Holds pending) (hidle : d.phase = .idle)
    (hswallow : d.swallowEnter = false) (c : Char) (now : ℕ) :
    d.Accounts pending [.char c] (keysOfFeed (d.start c now).2) [] (d.start c now).1 ∧
      ((d.start c now).2 = .held ∨ (d.start c now).2 = .pass [.char c]) := by
  obtain ⟨hheld, hbody, rfl⟩ := hholds.of_idle hidle
  have hpass : d.Accounts [] [.char c] [.char c] [] d := accounts_of_typing hholds rfl
  have hhold : ∀ phase, (∀ total, phase ≠ .body total) → (∀ dash, phase ≠ .frame dash) →
      Matched d.scannerPrefix [c] phase →
        d.Accounts [] [.char c] [] [] { d with held := d.held ++ [c], phase, since := some now } := by
    intro phase hnobody hnoframe hmatched
    refine accounts_of_holds ⟨by simpa [hheld] using hmatched, ?_, by simp [hswallow], by simp⟩ rfl
    cases phase with
    | body total => exact absurd rfl (hnobody total)
    | frame dash => exact absurd rfl (hnoframe dash)
    | _ => exact ⟨hbody, by simp [hheld]⟩
  unfold start
  cases hscanner : d.scannerPrefix with
  | nil =>
    rw [hscanner] at hhold
    simp only
    split_ifs with hmagic hframe
    · exact ⟨hhold .halfMagic (by simp) (by simp) (by rw [hmagic]; rfl), .inl rfl⟩
    · exact ⟨hhold .halfFrame (by simp) (by simp) (by rw [hframe]; rfl), .inl rfl⟩
    · exact ⟨hpass, .inr rfl⟩
  | cons first more =>
    rw [hscanner] at hhold
    simp only
    split_ifs with hfirst hmore
    · rw [List.isEmpty_iff] at hmore
      subst hfirst hmore
      exact ⟨hhold .prefixDone (by simp) (by simp) ⟨by simp, rfl⟩, .inl rfl⟩
    · subst hfirst
      have hlength : 1 < (first :: more).length := by
        simpa [List.length_pos_iff] using hmore
      exact ⟨hhold (.inPrefix 1) (by simp) (by simp) ⟨by decide, hlength, rfl⟩, .inl rfl⟩
    · exact ⟨hpass, .inr rfl⟩

/-- A character that breaks a partial match: what was held is handed on, and the character starts
over. -/
theorem accounts_releaseWith (hkeys : pending = d.held.map .char) (hswallow : d.swallowEnter = false)
    (c : Char) (now : ℕ) :
    d.Accounts pending [.char c] (keysOfFeed (d.releaseWith c now).2)
      (unitsOfFeed false (d.releaseWith c now).2) (d.releaseWith c now).1 := by
  have hboth := (accounts_of_reset hkeys).trans fun _ hholds ↦ (accounts_start hholds rfl hswallow c now).1
  have hanswer := (accounts_start d.holds_reset rfl hswallow c now).2
  unfold releaseWith
  cases hstart : d.reset.start c now with
  | mk started fed =>
    rw [hstart] at hboth hanswer
    rcases hanswer with rfl | rfl
    · cases hheld : d.held with
      | nil => simpa [hheld, keysOfFeed, unitsOfFeed] using hboth
      | cons first more => simpa [hheld, keysOfFeed, unitsOfFeed] using hboth
    · exact hboth

/-- A character that goes on with a partial match is held. -/
theorem accounts_hold (hholds : d.Holds pending) (hbody : d.body = [])
    (hkeys : pending = d.held.map .char) (hbusy : d.phase ≠ .idle) {c : Char} {phase : Phase}
    (hphase : ∀ total, phase ≠ .body total)
    (hmatched : Matched d.scannerPrefix (d.held ++ [c]) phase) (hdash : phase ≠ .frame true) :
    d.Accounts pending [.char c] [] [] (d.hold c phase).1 := by
  have hswallow : d.swallowEnter = false := by
    by_contra hswallow
    exact hbusy (hholds.swallowEnter (by simpa using hswallow))
  refine accounts_of_holds ⟨hmatched, ?_, by simp [hold, hswallow], fun _ ↦ hholds.since hbusy⟩ rfl
  cases phase with
  | body total => exact absurd rfl (hphase total)
  | frame dash =>
    cases dash with
    | true => exact absurd rfl hdash
    | false =>
      simp [Pending, hold, hkeys, hbody]
  | _ => exact ⟨hbody, by simp [hold, hkeys]⟩

/-- The character after the magic starts a payload, or ends the scan when it is no version. -/
theorem accounts_pushVersion (hholds : d.Holds pending) (hphase : d.phase = .version) (c : Char) :
    d.Accounts pending [.char c] (keysOfFeed (d.pushVersion c).2)
      (unitsOfFeed false (d.pushVersion c).2) (d.pushVersion c).1 := by
  obtain ⟨hbody, hkeys⟩ := hholds.pending_eq (by simp [hphase]) (by simp [hphase])
  have hheld : d.held = d.scannerPrefix ++ magic := by
    simpa [hphase, Matched] using hholds.matched
  unfold pushVersion
  cases hversion : payloadLen c with
  | some total =>
    obtain ⟨rfl, rfl⟩ : c = version1 ∧ v1Len = total := by simpa [payloadLen] using hversion
    refine accounts_of_holds ⟨⟨rfl, hheld⟩, ?_, ?_, fun _ ↦ hholds.since (by simp [hphase])⟩ rfl
    · refine ⟨[version1], by simp, by decide, ?_, by simp [hkeys]⟩
      simp only [hbody]
      decide
    · intro hswallow
      have hidle := hholds.swallowEnter hswallow
      rw [hphase] at hidle
      cases hidle
  | none =>
    refine accounts_of_unit (.inr ⟨c, ?_, hversion, rfl⟩) d.holds_reset rfl
    simp [hkeys, hheld]

/-- A character of a payload is held until the payload has its length. -/
theorem accounts_pushBody (hholds : d.Holds pending) {total : ℕ} (hphase : d.phase = .body total)
    (c : Char) (now : ℕ) :
    d.Accounts pending [.char c] (keysOfFeed (d.pushBody total c now).2)
      (unitsOfFeed false (d.pushBody total c now).2) (d.pushBody total c now).1 := by
  have hmatched := hholds.matched
  have hpending := hholds.pending
  rw [hphase] at hmatched hpending
  obtain ⟨htotal, hheld⟩ := hmatched
  obtain ⟨typed, hne, hlength, hbody, hkeys⟩ := hpending
  have hnext : d.body ++ [c.toUpper] = toAsciiUppercase (typed ++ [c]) := by
    simp [hbody, toAsciiUppercase]
  unfold pushBody
  simp only [hnext]
  split_ifs with hfull
  · refine accounts_of_unit (.inl ⟨typed ++ [c], [], ?_, .inl rfl, rfl⟩) (holds_nil rfl rfl rfl) rfl
    simp [hkeys, hheld]
  · refine accounts_of_holds ⟨?_, ?_, ?_, fun _ ↦ hholds.since (by simp [hphase])⟩ rfl
    · simpa [hphase, Matched] using ⟨htotal, hheld⟩
    · simp only [hphase, Pending]
      refine ⟨typed ++ [c], by simp, ?_, rfl, by simp [hkeys]⟩
      simp only [toAsciiUppercase, List.length_map, ge_iff_le, not_le] at hfull
      omega
    · intro hswallow
      exact hholds.swallowEnter hswallow

/-- A character of a frame is held until the frame is closed. -/
theorem accounts_pushFrame (hholds : d.Holds pending) {dash : Bool} (hphase : d.phase = .frame dash)
    (c : Char) (now : ℕ) :
    d.Accounts pending [.char c] (keysOfFeed (d.pushFrame dash c now).2)
      (unitsOfFeed false (d.pushFrame dash c now).2) (d.pushFrame dash c now).1 := by
  have hheld := hholds.matched
  have hpending := hholds.pending
  rw [hphase] at hheld hpending
  replace hpending : charsOf pending = d.held ++ d.body ++ if dash then [frameChar] else [] := hpending
  have hswallow : d.swallowEnter ≠ true := by
    intro hswallow
    have hidle := hholds.swallowEnter hswallow
    rw [hphase] at hidle
    cases hidle
  have hkeep : ∀ (more : Text) (dash' : Bool),
      charsOf (pending ++ [.char c]) =
        d.held ++ (d.body ++ more) ++ (if dash' then [frameChar] else []) →
      d.Accounts pending [.char c] [] []
        { d with since := some now, body := d.body ++ more, phase := .frame dash' } := by
    intro more dash' hchars
    exact accounts_of_holds ⟨hheld, hchars, fun h ↦ absurd h hswallow, fun _ ↦ rfl⟩ rfl
  unfold pushFrame
  simp only
  by_cases hc : c = frameChar
  · subst hc
    rw [if_pos rfl]
    cases dash with
    | true =>
      refine accounts_of_unit ?_ (holds_nil rfl rfl rfl) rfl
      simp [Recognised.Fits, hpending, show d.held = _ from hheld]
    | false =>
      have hkept := hkeep [] true (by simp [hpending])
      simpa [keysOfFeed, unitsOfFeed] using hkept
  · rw [if_neg hc]
    have hkept := hkeep ((if dash then [frameChar] else []) ++ [c]) false (by simp [hpending])
    rwa [← List.append_assoc] at hkept

/-- A character key is held, released or completes something. -/
theorem accounts_pushChar (hholds : d.Holds pending) (c : Char) (now : ℕ) :
    d.Accounts pending [.char c] (keysOfFeed (d.pushChar c now).2)
      (unitsOfFeed false (d.pushChar c now).2) (d.pushChar c now).1 := by
  have hcleared : ∀ phase, d.phase = phase →
      { d with swallowEnter := false, phase }.Holds pending := by
    rintro phase rfl
    exact ⟨hholds.matched, hholds.pending, fun h ↦ (by cases h), hholds.since⟩
  have hrelease : ∀ phase, pending = d.held.map .char →
      { d with swallowEnter := false, phase }.Accounts pending [.char c]
        (keysOfFeed ({ d with swallowEnter := false, phase }.releaseWith c now).2)
        (unitsOfFeed false ({ d with swallowEnter := false, phase }.releaseWith c now).2)
        ({ d with swallowEnter := false, phase }.releaseWith c now).1 :=
    fun phase hkeys ↦ accounts_releaseWith (d := { d with swallowEnter := false, phase }) hkeys rfl c now
  have hmatched := hholds.matched
  unfold pushChar
  simp only
  cases hphase : d.phase with
  | idle =>
    obtain ⟨hstart, hanswer⟩ := accounts_start (hcleared _ hphase) rfl rfl c now
    rcases hanswer with hanswer | hanswer <;> rw [hanswer] at hstart ⊢ <;> exact hstart
  | version => exact accounts_pushVersion (hcleared _ hphase) rfl c
  | body total => exact accounts_pushBody (hcleared _ hphase) rfl c now
  | frame dash => exact accounts_pushFrame (hcleared _ hphase) rfl c now
  | inPrefix n =>
    obtain ⟨hbody, hkeys⟩ := hholds.pending_eq (by simp [hphase]) (by simp [hphase])
    rw [hphase] at hmatched
    obtain ⟨-, hlt, hheld⟩ := hmatched
    simp only
    by_cases hc : d.scannerPrefix[n]? = some c
    · rw [if_pos hc]
      have hnext : d.held ++ [c] = d.scannerPrefix.take (n + 1) := by
        rw [List.take_add_one, hc, hheld]
        rfl
      by_cases hlast : n + 1 = d.scannerPrefix.length
      · rw [if_pos hlast]
        refine accounts_hold (hcleared _ hphase) hbody hkeys (by simp) (by simp) ⟨?_, ?_⟩ (by simp)
        · intro hnil
          rw [show d.scannerPrefix = [] from hnil] at hlt
          cases hlt
        · exact hnext.trans (by rw [hlast, List.take_length])
      · rw [if_neg hlast]
        have hmore : n + 1 < d.scannerPrefix.length := by omega
        exact accounts_hold (hcleared _ hphase) hbody hkeys (by simp) (by simp)
          ⟨n.succ_pos, hmore, hnext⟩ (by simp)
    · rw [if_neg hc]
      exact hrelease _ hkeys
  | prefixDone =>
    obtain ⟨hbody, hkeys⟩ := hholds.pending_eq (by simp [hphase]) (by simp [hphase])
    rw [hphase] at hmatched
    simp only
    split_ifs with hmagic hframe
    · refine accounts_hold (hcleared _ hphase) hbody hkeys (by simp) (by simp) ?_ (by simp)
      rw [hmatched.2, hmagic]
      rfl
    · refine accounts_hold (hcleared _ hphase) hbody hkeys (by simp) (by simp) ?_ (by simp)
      rw [hmatched.2, hframe]
      rfl
    · exact hrelease _ hkeys
  | halfMagic =>
    obtain ⟨hbody, hkeys⟩ := hholds.pending_eq (by simp [hphase]) (by simp [hphase])
    rw [hphase] at hmatched
    simp only
    split_ifs with hc
    · refine accounts_hold (hcleared _ hphase) hbody hkeys (by simp) (by simp) ?_ (by simp)
      rw [hc]
      exact (congrArg (· ++ [magicChar]) hmatched).trans (List.append_assoc _ _ _)
    · exact hrelease _ hkeys
  | halfFrame =>
    obtain ⟨hbody, hkeys⟩ := hholds.pending_eq (by simp [hphase]) (by simp [hphase])
    rw [hphase] at hmatched
    simp only
    split_ifs with hc
    · refine accounts_hold (hcleared _ hphase) hbody hkeys (by simp) (by simp) ?_ (by simp)
      rw [hc]
      exact (congrArg (· ++ [frameChar]) hmatched).trans (List.append_assoc _ _ _)
    · exact hrelease _ hkeys
  | frameOpen =>
    obtain ⟨hbody, hkeys⟩ := hholds.pending_eq (by simp [hphase]) (by simp [hphase])
    rw [hphase] at hmatched
    simp only
    split_ifs with hc
    · have hempty : ({ d with body := [], swallowEnter := false, phase := .frameOpen }).Holds pending := by
        rw [← hbody]
        exact hcleared _ hphase
      refine accounts_hold hempty rfl hkeys (by simp) (by simp) ?_ (by simp)
      rw [hc]
      exact (congrArg (· ++ [version1]) hmatched).trans (List.append_assoc _ _ _)
    · exact hrelease _ hkeys

/-- Enter ends a scan, is left out of a frame, is swallowed behind a unit, and is typing otherwise. -/
theorem accounts_pushEnter (hholds : d.Holds pending) (now : ℕ) :
    d.Accounts pending [.enter] (keysOfFeed (d.pushEnter now).2)
      (unitsOfFeed (d.swallows .enter) (d.pushEnter now).2) (d.pushEnter now).1 := by
  have hmatched := hholds.matched
  have hpending := hholds.pending
  unfold pushEnter swallows
  by_cases hswallow : d.swallowEnter = true
  · rw [if_pos hswallow, hswallow]
    have hidle := hholds.swallowEnter hswallow
    obtain ⟨hheld, hbody, rfl⟩ := hholds.of_idle hidle
    exact accounts_of_unit rfl (holds_nil hidle hheld hbody) rfl
  · rw [if_neg hswallow, Bool.not_eq_true] at *
    rw [hswallow]
    cases hphase : d.phase with
    | idle =>
      obtain ⟨hheld, hbody, rfl⟩ := hholds.of_idle hphase
      exact accounts_of_typing hholds rfl
    | body total =>
      rw [hphase] at hmatched hpending
      obtain ⟨typed, -, -, hbody, hkeys⟩ := hpending
      refine accounts_of_unit (.inl ⟨typed, [.enter], ?_, .inr rfl, ?_⟩) (holds_nil rfl rfl rfl) rfl
      · rw [hkeys, hmatched.2]
      · rw [hbody]
    | frame dash =>
      rw [hphase] at hmatched hpending
      refine accounts_of_holds ⟨?_, ?_, ?_, fun _ ↦ rfl⟩ rfl
      · simpa [hphase] using hmatched
      · simp only [Pending, charsOf_append, charsOf_enter_cons, charsOf_nil, List.append_nil]
        exact hpending
      · simp
    | _ =>
      obtain ⟨hbody, hkeys⟩ := hholds.pending_eq (by simp [hphase]) (by simp [hphase])
      rw [hkeys]
      exact accounts_of_typing d.holds_reset rfl

/-- A key after the expiry. -/
def pushKey (d : ScanDetector) (now : ℕ) : ScanKey → ScanDetector × Feed
  | .char c => d.pushChar c now
  | .enter => d.pushEnter now

theorem push_eq (d : ScanDetector) (key : ScanKey) (now : ℕ) :
    d.push key now = (((d.expire now).1.pushKey now key).1,
      withStale (d.expire now).2 ((d.expire now).1.pushKey now key).2) := by
  cases key <;> rfl

theorem accounts_pushKey (hholds : d.Holds pending) (key : ScanKey) (now : ℕ) :
    d.Accounts pending [key] (keysOfFeed (d.pushKey now key).2)
      (unitsOfFeed (d.swallows key) (d.pushKey now key).2) (d.pushKey now key).1 := by
  cases key with
  | char c =>
    rw [show d.swallows (.char c) = false by simp [swallows]]
    exact accounts_pushChar hholds c now
  | enter => exact accounts_pushEnter hholds now

/-- A detector that has just dropped everything reports nothing: it holds the key or hands it on. -/
theorem pushKey_of_idle (hphase : d.phase = .idle) (hswallow : d.swallowEnter = false)
    (key : ScanKey) (now : ℕ) :
    (d.pushKey now key).2 = .held ∨ ∃ keys, (d.pushKey now key).2 = .pass keys := by
  cases key with
  | char c =>
    simp only [pushKey, pushChar, hphase, start]
    split
    · split_ifs
      · exact .inl rfl
      · exact .inl rfl
      · exact .inr ⟨_, rfl⟩
    · split_ifs
      · exact .inl rfl
      · exact .inl rfl
      · exact .inr ⟨_, rfl⟩
  | enter =>
    refine .inr ⟨[.enter], ?_⟩
    simp [pushKey, pushEnter, hphase, hswallow]

/-- Only a partial match is handed back when it goes stale. -/
theorem expire_eq_keys {now : ℕ} {keys : List ScanKey} (hstale : (d.expire now).2 = .keys keys) :
    d.phase ≠ .idle ∧ (d.expire now).1 = d.reset := by
  rcases d.expire_cases now with hsame | ⟨hreset, -⟩
  · rw [hsame] at hstale
    cases hstale
  · refine ⟨fun hidle ↦ ?_, hreset⟩
    have hnothing : (d.expire now).2 = .nothing := by
      unfold expire
      cases d.since with
      | none => rfl
      | some t => simp only [hidle]
    rw [hnothing] at hstale
    cases hstale

/-- One call accounts for every key: what it hands on, what it recognises and what stays held. -/
theorem accounts_call (hholds : d.Holds pending) (call : Call) :
    d.Accounts pending call.keys (d.released call) (d.recognised call) (d.call call) := by
  cases call with
  | tick now => exact accounts_expire hholds now
  | key key now =>
    have hboth := (accounts_expire hholds now).trans fun _ hholds ↦ accounts_pushKey hholds key now
    simp only [released, recognised, ScanDetector.call, Call.keys, push_eq]
    cases hstale : (d.expire now).2 with
    | keys keys =>
      obtain ⟨hbusy, hreset⟩ := expire_eq_keys hstale
      have hswallow : d.swallowEnter = false := by
        by_contra hswallow
        exact hbusy (hholds.swallowEnter (by simpa using hswallow))
      have hanswer := pushKey_of_idle (d := d.reset) rfl hswallow key now
      simp only [hstale, hreset, keysOfExpired, unitsOfExpired] at hboth ⊢
      rcases hanswer with hanswer | ⟨more, hanswer⟩
      · rw [hanswer] at hboth ⊢
        simpa [keysOfFeed, unitsOfFeed, withStale, swallows, reset, hswallow] using hboth
      · rw [hanswer] at hboth ⊢
        simpa [keysOfFeed, unitsOfFeed, withStale] using hboth
    | _ =>
      simp only [hstale, keysOfExpired, unitsOfExpired] at hboth ⊢
      exact hboth

end OneCall

/-! ### A run -/

/-- The keys some calls feed. -/
def fedKeys (calls : List Call) : List ScanKey := calls.flatMap Call.keys

/-- The detector after some calls. -/
def run (d : ScanDetector) (calls : List Call) : ScanDetector := calls.foldl call d

/-- The keys some calls hand on. -/
def releasedBy : ScanDetector → List Call → List ScanKey
  | _, [] => []
  | d, call :: calls => d.released call ++ (d.call call).releasedBy calls

/-- What some calls recognise. -/
def recognisedBy : ScanDetector → List Call → List Recognised
  | _, [] => []
  | d, call :: calls => d.recognised call ++ (d.call call).recognisedBy calls

/-- Pieces for each call that account for what it hands on and what it recognises. -/
def Explained : ScanDetector → List Call → List (List Piece) → Prop
  | _, [], pieces => pieces = []
  | d, call :: calls, pieces =>
    ∃ first later, pieces = first :: later ∧
      Explains d.scannerPrefix (d.released call) (d.recognised call) first ∧
      (d.call call).Explained calls later

theorem exists_pieces {d : ScanDetector} {pending : List ScanKey} (hholds : d.Holds pending)
    (calls : List Call) :
    ∃ pieces pending', pending ++ fedKeys calls = pieces.flatten.flatMap Piece.keys ++ pending' ∧
      (d.run calls).Holds pending' ∧ (d.run calls).settings = d.settings ∧
      d.Explained calls pieces := by
  induction calls generalizing d pending with
  | nil => exact ⟨[], pending, by simp [fedKeys], hholds, rfl, rfl⟩
  | cons call calls ih =>
    obtain ⟨first, middle, hkeys, hmiddle, hsame, hfirst⟩ := accounts_call hholds call
    obtain ⟨later, pending', hrest, hend, hsettings, hlater⟩ := ih hmiddle
    refine ⟨first :: later, pending', ?_, hend, hsettings.trans hsame, first, later, rfl, hfirst,
      hlater⟩
    calc pending ++ fedKeys (call :: calls) = (pending ++ call.keys) ++ fedKeys calls := by
          simp [fedKeys]
      _ = first.flatMap Piece.keys ++ (middle ++ fedKeys calls) := by
          rw [hkeys, List.append_assoc]
      _ = (first :: later).flatten.flatMap Piece.keys ++ pending' := by
          rw [hrest, List.flatten_cons, List.flatMap_append, List.append_assoc]

/-- Where nothing is recognised every piece is typing. -/
theorem Explained.keys_eq {d : ScanDetector} {calls : List Call} {pieces : List (List Piece)}
    (hpieces : d.Explained calls pieces) (hnone : d.recognisedBy calls = []) :
    pieces.flatten.flatMap Piece.keys = d.releasedBy calls := by
  induction calls generalizing d pieces with
  | nil =>
    obtain rfl : pieces = [] := hpieces
    rfl
  | cons call calls ih =>
    obtain ⟨first, later, rfl, hfirst, hlater⟩ := hpieces
    obtain ⟨hnow, hrest⟩ := List.append_eq_nil_iff.mp hnone
    have htyping : ∀ piece ∈ first, piece.keys = piece.released := by
      intro piece hpiece
      cases piece with
      | typing keys => rfl
      | unit what keys =>
        have hmem : what ∈ first.flatMap Piece.recognised :=
          List.mem_flatMap.mpr ⟨_, hpiece, List.mem_singleton_self what⟩
        rw [hfirst.recognised, hnow] at hmem
        cases hmem
    rw [List.flatten_cons, List.flatMap_append, ih hlater hrest, releasedBy, ← hfirst.released]
    rw [List.flatMap_congr htyping]

/-- Every key fed to a detector, with ticks of the clock anywhere between the keys, is handed on as
typing, belongs to one recognised unit or is still held, and it all stands in the order in which it
was fed. Where nothing is recognised, what was handed on and what is held are all the keys. -/
theorem keys_accounted (scannerPrefix : Text) (enterTerminates : Bool)
    (timeoutMs frameTimeoutMs : ℕ) (calls : List Call) :
    let d := configured scannerPrefix enterTerminates timeoutMs frameTimeoutMs
    ∃ pieces pending, fedKeys calls = pieces.flatten.flatMap Piece.keys ++ pending ∧
      (d.run calls).Holds pending ∧ d.Explained calls pieces ∧
      (d.recognisedBy calls = [] → fedKeys calls = d.releasedBy calls ++ pending) := by
  intro d
  obtain ⟨pieces, pending, hkeys, hholds, -, hpieces⟩ :=
    exists_pieces (holds_configured scannerPrefix enterTerminates timeoutMs frameTimeoutMs) calls
  refine ⟨pieces, pending, hkeys, hholds, hpieces, fun hnone ↦ ?_⟩
  rw [← hpieces.keys_eq hnone]
  exact hkeys

end ScanDetector

end Taskologic.Core
