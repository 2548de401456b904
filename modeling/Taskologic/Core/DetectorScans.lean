import Taskologic.Core.DetectorAccount
import Taskologic.Core.PayloadCodes

/-!
# Scans behind typing

What a scanner sends may come right behind a character somebody typed, one that a detector holds
because a match could begin there. A detector does not fall back to a shorter match: a character
that goes on with what is held is taken for it. So a scan is recognised exactly when its first
character breaks what is held, or what is held has gone stale and is handed back
(`ScanDetector.recognises_iff`). Two magic characters are never broken and never handed back.

`ScanDetector.OnScan` follows a scan that is on its way. `ScanDetector.matchedLen` shows why a scan
that goes on with what is held is missed: one that was not started with its first character is never
complete with its last one.
-/

set_option autoImplicit false
set_option relaxedAutoImplicit false

namespace Taskologic.Core

/-! ### What a scan should do -/

/-- Nothing is in progress or a partial match is: neither a payload nor a frame is being read. -/
def Phase.Partial : Phase → Prop
  | .body _ => False
  | .frame _ => False
  | _ => True

/-- Whether a character goes on with what is held. -/
def Phase.takes (scannerPrefix : Text) (c : Char) : Phase → Bool
  | .idle => false
  | .inPrefix n => scannerPrefix[n]? == some c
  | .prefixDone => c == magicChar || c == frameChar
  | .halfMagic => c == magicChar
  | .halfFrame => c == frameChar
  | .frameOpen => c == version1
  | _ => true

namespace ScanDetector

/-- The scan is recognised with its last key, and only what was held before is handed on. -/
def Recognises (d : ScanDetector) (payload : ScanPayload) (keys : List (ScanKey × ℕ)) : Prop :=
  (d.pushAll keys).2.getLast? = some (.scan (.ok payload)) ∧
    (d.pushAll keys).2.flatMap keysOfFeed = d.held.map .char

/-- What is in progress began too long before a time. -/
def Stale (d : ScanDetector) (now : ℕ) : Prop := ∃ since, d.since = some since ∧ d.timeoutMs < now - since

/-- Any two of some keys come within a time. -/
def Within (ms : ℕ) (keys : List (ScanKey × ℕ)) : Prop :=
  ∀ first ∈ keys, ∀ second ∈ keys, second.2 ≤ first.2 + ms

theorem within_atOnce (ms : ℕ) (keys : List ScanKey) : Within ms (atOnce keys) := by
  intro first hfirst second hsecond
  obtain ⟨-, -, rfl⟩ := List.mem_map.mp hsecond
  exact Nat.zero_le _

/-! ### A scan on its way -/

/-- The characters of a scan that are still missing, up to its version, when `rest` follows. -/
def toScan (scannerPrefix rest : Text) : Phase → Option Text
  | .idle => some (scannerPrefix ++ magic ++ rest)
  | .inPrefix n =>
    if n < scannerPrefix.length then some (scannerPrefix.drop n ++ magic ++ rest) else none
  | .prefixDone => some (magic ++ rest)
  | .halfMagic => some (magicChar :: rest)
  | .version => some rest
  | _ => none

/-- A scan that started at `since` and of which `missing` is missing, `tail` being what follows its
version. -/
structure OnScan (timeoutMs since : ℕ) (tail : Text) (d : ScanDetector) (missing : Text) : Prop where
  timeoutMs : d.timeoutMs = timeoutMs
  since : d.since = some since
  missing : (toScan d.scannerPrefix (version1 :: tail) d.phase = some missing ∧ d.body = []) ∨
    (d.phase = .body v1Len ∧ missing ≠ [] ∧ ∃ read, d.body = version1 :: read ∧ read ++ missing = tail)
  phase_ne : d.phase ≠ .idle

/-- A payload behind its version: in upper case, and of the right length. -/
structure PayloadTail (tail : Text) : Prop where
  upper : toAsciiUppercase tail = tail
  length : tail.length = 8

section OnScan

variable {d : ScanDetector} {timeoutMs since now : ℕ} {tail missing : Text} {c : Char}

theorem expire_of_since {t : ℕ} (hsince : d.since = some t) (htime : now ≤ t + d.timeoutMs)
    (hframe : ∀ dash, d.phase ≠ .frame dash) : d.expire now = (d, .nothing) := by
  have hage : now - t ≤ d.timeoutMs := by omega
  simp only [expire, hsince]
  cases hphase : d.phase with
  | frame dash => exact absurd hphase (hframe dash)
  | _ => simp [hage]

theorem OnScan.phase_ne_frame (hscan : OnScan timeoutMs since tail d missing) (dash : Bool) :
    d.phase ≠ .frame dash := by
  intro hphase
  rcases hscan.missing with ⟨hmissing, -⟩ | ⟨hbody, -⟩
  · rw [hphase] at hmissing
    cases hmissing
  · rw [hphase] at hbody
    cases hbody

/-- The first character of a scan starts a match. -/
theorem onScan_start {rest : Text} (hbody : d.body = [])
    (hfirst : d.scannerPrefix ++ magic ++ version1 :: tail = c :: rest) (now : ℕ) :
    (d.start c now).2 = .held ∧ OnScan d.timeoutMs now tail (d.start c now).1 rest := by
  unfold start
  cases hscannerPrefix : d.scannerPrefix with
  | nil =>
    rw [hscannerPrefix] at hfirst
    obtain ⟨rfl, rfl⟩ : magicChar = c ∧ magicChar :: version1 :: tail = rest := by
      simpa [magic] using hfirst
    simp only [if_true, true_and]
    exact ⟨rfl, rfl, .inl ⟨rfl, hbody⟩, by simp⟩
  | cons first more =>
    rw [hscannerPrefix] at hfirst
    obtain ⟨rfl, rfl⟩ : first = c ∧ more ++ magic ++ version1 :: tail = rest := by
      simpa using hfirst
    simp only [if_true, true_and]
    refine ⟨rfl, rfl, .inl ⟨?_, hbody⟩, ?_⟩
    · cases more with
      | nil => simp [toScan]
      | cons next more => simp [toScan]
    · cases more <;> simp

/-- The next missing character of a scan is held, the last one completes the scan. -/
theorem OnScan.pushChar (htail : PayloadTail tail)
    (hscan : OnScan timeoutMs since tail d (c :: missing)) (now : ℕ) :
    (missing ≠ [] ∧ (d.pushChar c now).2 = .held ∧
      OnScan timeoutMs since tail (d.pushChar c now).1 missing) ∨
    (missing = [] ∧ (d.pushChar c now).2 =
      .scan (ScanPayload.parse (magic ++ version1 :: tail))) := by
  obtain ⟨htimeout, hsince, hmissing, hbusy⟩ := hscan
  have htailNe : tail ≠ [] := by
    rintro rfl
    cases htail.length
  have hhold : ∀ phase, phase ≠ .idle → d.body = [] →
      toScan d.scannerPrefix (version1 :: tail) phase = some missing →
      OnScan timeoutMs since tail ({ d with swallowEnter := false }.hold c phase).1 missing :=
    fun phase hphase hbody hnext ↦ ⟨htimeout, hsince, .inl ⟨hnext, hbody⟩, hphase⟩
  rcases hmissing with ⟨hmissing, hbody⟩ | ⟨hphase, -, read, hbody, rfl⟩
  · left
    cases hphase : d.phase with
    | idle => exact absurd hphase hbusy
    | inPrefix n =>
      simp only [hphase, toScan] at hmissing
      split at hmissing
      · rename_i hn
        rw [List.drop_eq_getElem_cons hn, List.cons_append, List.cons_append, Option.some.injEq,
          List.cons.injEq] at hmissing
        obtain ⟨rfl, rfl⟩ := hmissing
        simp only [ScanDetector.pushChar, hphase, List.getElem?_eq_getElem hn, if_true]
        refine ⟨by simp, rfl, hhold _ (by split <;> simp) hbody ?_⟩
        by_cases hlast : n + 1 = d.scannerPrefix.length
        · simp [toScan, hlast]
        · have hmore : n + 1 < d.scannerPrefix.length := by omega
          simp [toScan, hlast, hmore]
      · cases hmissing
    | prefixDone =>
      obtain ⟨rfl, rfl⟩ : magicChar = c ∧ magicChar :: version1 :: tail = missing := by
        simpa [hphase, toScan, magic] using hmissing
      simp only [ScanDetector.pushChar, hphase, if_true]
      exact ⟨by simp, rfl, hhold _ (by simp) hbody rfl⟩
    | halfMagic =>
      obtain ⟨rfl, rfl⟩ : magicChar = c ∧ version1 :: tail = missing := by
        simpa [hphase, toScan] using hmissing
      simp only [ScanDetector.pushChar, hphase, if_true]
      exact ⟨by simp, rfl, hhold _ (by simp) hbody rfl⟩
    | version =>
      obtain ⟨rfl, rfl⟩ : version1 = c ∧ tail = missing := by
        simpa [hphase, toScan] using hmissing
      simp only [ScanDetector.pushChar, hphase, pushVersion, payloadLen, if_true]
      exact ⟨htailNe, trivial, htimeout, hsince, .inr ⟨rfl, htailNe, [], by simp [hbody], rfl⟩, by simp⟩
    | _ => simp [hphase, toScan] at hmissing
  · have hupper : c.toUpper = c := by
      have hmem : c ∈ toAsciiUppercase (read ++ c :: missing) := by
        rw [htail.upper]
        simp
      exact toUpper_of_mem_toAsciiUppercase hmem
    have hlength := htail.length
    simp only [List.length_append, List.length_cons] at hlength
    simp only [ScanDetector.pushChar, hphase, pushBody, hbody, hupper]
    cases missing with
    | nil =>
      right
      rw [if_pos (by simp [magicLen, v1Len, ShortId.len] at hlength ⊢; omega)]
      exact ⟨rfl, rfl⟩
    | cons next missing =>
      left
      rw [if_neg (by simp [magicLen, v1Len, ShortId.len] at hlength ⊢; omega)]
      exact ⟨by simp, rfl, htimeout, hsince,
        .inr ⟨rfl, by simp, read ++ [c], by simp, by simp⟩, by simp⟩

/-- There is always something missing from a scan on its way. -/
theorem OnScan.missing_ne (hscan : OnScan timeoutMs since tail d missing) : missing ≠ [] := by
  rcases hscan.missing with ⟨hmissing, -⟩ | ⟨-, hne, -⟩
  · rintro rfl
    cases hphase : d.phase <;> simp [hphase, toScan, magic] at hmissing
  · exact hne

/-- A scan on its way whose keys come in time is recognised with the last of them, and nothing is
handed on meanwhile. -/
theorem OnScan.pushAll (htail : PayloadTail tail) {keys : List (ScanKey × ℕ)}
    (hscan : OnScan timeoutMs since tail d missing)
    (hkeys : keys.map Prod.fst = missing.map .char)
    (htime : ∀ key ∈ keys, key.2 ≤ since + timeoutMs) :
    (d.pushAll keys).2.getLast? = some (.scan (ScanPayload.parse (magic ++ version1 :: tail))) ∧
      (d.pushAll keys).2.flatMap keysOfFeed = [] := by
  induction keys generalizing d missing with
  | nil => exact absurd (by simpa using hkeys.symm) hscan.missing_ne
  | cons stroke keys ih =>
    obtain ⟨key, now⟩ := stroke
    cases missing with
    | nil => exact absurd rfl hscan.missing_ne
    | cons c missing =>
      obtain ⟨rfl, hrest⟩ := List.cons.inj hkeys
      have hnow : d.expire now = (d, .nothing) := by
        refine expire_of_since hscan.since ?_ hscan.phase_ne_frame
        rw [hscan.timeoutMs]
        exact htime _ List.mem_cons_self
      have hpush : d.push (.char c) now = d.pushChar c now :=
        push_char_of_nothing (by rw [hnow]) c
      simp only [ScanDetector.pushAll, hpush]
      rcases hscan.pushChar htail now with ⟨hmore, hheld, hnext⟩ | ⟨rfl, hdone⟩
      · obtain ⟨hlast, hsilent⟩ := ih hnext hrest fun key hkey ↦ htime key (List.mem_cons_of_mem _ hkey)
        have hanswers : ((d.pushChar c now).1.pushAll keys).2 ≠ [] := by
          intro hnil
          rw [hnil] at hlast
          cases hlast
        rw [hheld, List.getLast?_cons, List.flatMap_cons, hsilent]
        refine ⟨?_, rfl⟩
        rw [hlast]
        rfl
      · obtain rfl : keys = [] := by simpa using hrest
        rw [hdone]
        exact ⟨rfl, rfl⟩

/-- The answers to a scan whose first key is the first to be held, `released` being what that key
makes the detector hand on. -/
theorem pushAll_of_start (htail : PayloadTail tail) {rest : List (ScanKey × ℕ)}
    {released : List ScanKey} (hreleased : keysOfFeed (d.push (.char c) now).2 = released)
    (hscan : OnScan timeoutMs now tail (d.push (.char c) now).1 missing)
    (hkeys : rest.map Prod.fst = missing.map .char) (htime : ∀ key ∈ rest, key.2 ≤ now + timeoutMs) :
    (d.pushAll ((.char c, now) :: rest)).2.getLast? =
        some (.scan (ScanPayload.parse (magic ++ version1 :: tail))) ∧
      (d.pushAll ((.char c, now) :: rest)).2.flatMap keysOfFeed = released := by
  obtain ⟨hlast, hsilent⟩ := hscan.pushAll htail hkeys htime
  simp only [ScanDetector.pushAll]
  rw [List.getLast?_cons, List.flatMap_cons, hsilent, hlast, hreleased]
  simp

end OnScan

/-! ### The first key -/

section FirstKey

variable {d : ScanDetector} {pending : List ScanKey} {now : ℕ} {tail rest : Text} {c : Char}

/-- Of a partial match the time decides whether it is stale. -/
theorem expire_ne_nothing_iff (hmatching : d.phase.Partial) (now : ℕ) :
    (d.expire now).2 ≠ .nothing ↔ d.phase ≠ .idle ∧ d.Stale now := by
  unfold expire Stale
  cases hsince : d.since with
  | none => simp
  | some since =>
    cases hphase : d.phase with
    | body total => simp [hphase, Phase.Partial] at hmatching
    | frame dash => simp [hphase, Phase.Partial] at hmatching
    | idle => simp
    | _ => by_cases hage : now - since ≤ d.timeoutMs <;> simp [hage]; omega

/-- A first character that breaks what is held makes the detector hand it on and start over. -/
theorem onScan_of_not_takes (hholds : d.Holds pending)
    (hnow : (d.expire now).2 = .nothing) (htakes : d.phase.takes d.scannerPrefix c = false)
    (hfirst : d.scannerPrefix ++ magic ++ version1 :: tail = c :: rest) :
    keysOfFeed (d.push (.char c) now).2 = d.held.map .char ∧
      OnScan d.timeoutMs now tail (d.push (.char c) now).1 rest := by
  have hrelease : ∀ e : ScanDetector, e.scannerPrefix = d.scannerPrefix → e.timeoutMs = d.timeoutMs →
      e.held = d.held → keysOfFeed (e.releaseWith c now).2 = d.held.map .char ∧
        OnScan d.timeoutMs now tail (e.releaseWith c now).1 rest := by
    intro e hscanner htimeout hheld
    rw [← hscanner] at hfirst
    obtain ⟨hanswer, hscan⟩ := onScan_start (d := e.reset) rfl hfirst now
    unfold releaseWith
    cases hstart : e.reset.start c now with
    | mk started fed =>
      rw [hstart] at hanswer hscan
      obtain rfl : fed = .held := hanswer
      rw [hheld]
      refine ⟨?_, htimeout ▸ hscan⟩
      cases d.held <;> rfl
  rw [push_char_of_nothing hnow]
  unfold ScanDetector.pushChar
  simp only
  cases hphase : d.phase with
  | idle =>
    obtain ⟨hheld, hbody, -⟩ := hholds.of_idle hphase
    obtain ⟨hanswer, hscan⟩ :=
      onScan_start (d := { d with swallowEnter := false, phase := .idle }) hbody hfirst now
    refine ⟨?_, hscan⟩
    rw [hanswer, hheld]
    rfl
  | inPrefix n =>
    have hc : d.scannerPrefix[n]? ≠ some c := by simpa [hphase, Phase.takes] using htakes
    simp only [if_neg hc]
    exact hrelease _ rfl rfl rfl
  | prefixDone =>
    obtain ⟨hmagic, hframe⟩ : c ≠ magicChar ∧ c ≠ frameChar := by
      simpa [hphase, Phase.takes] using htakes
    simp only [if_neg hmagic, if_neg hframe]
    exact hrelease _ rfl rfl rfl
  | halfMagic =>
    have hc : c ≠ magicChar := by simpa [hphase, Phase.takes] using htakes
    simp only [if_neg hc]
    exact hrelease _ rfl rfl rfl
  | halfFrame =>
    have hc : c ≠ frameChar := by simpa [hphase, Phase.takes] using htakes
    simp only [if_neg hc]
    exact hrelease _ rfl rfl rfl
  | frameOpen =>
    have hc : c ≠ version1 := by simpa [hphase, Phase.takes] using htakes
    simp only [if_neg hc]
    exact hrelease _ rfl rfl rfl
  | _ => simp [hphase, Phase.takes] at htakes

/-- A first character that finds what is held stale makes the detector start over. What is held is
handed on unless it is the magic. -/
theorem onScan_of_stale (hmatching : d.phase.Partial) (hstale : (d.expire now).2 ≠ .nothing)
    (hfirst : d.scannerPrefix ++ magic ++ version1 :: tail = c :: rest) :
    keysOfFeed (d.push (.char c) now).2 = (if d.phase = .version then [] else d.held.map .char) ∧
      OnScan d.timeoutMs now tail (d.push (.char c) now).1 rest := by
  have hreset : (d.expire now).1 = d.reset := by
    rcases d.expire_cases now with hsame | ⟨hreset, -⟩
    · exact absurd (by rw [hsame]) hstale
    · exact hreset
  have hwhat : (d.expire now).2 = if d.phase = .version then .scan else .keys (d.held.map .char) := by
    revert hstale
    unfold expire
    cases d.since with
    | none => simp
    | some since =>
      cases hphase : d.phase with
      | body total => simp [hphase, Phase.Partial] at hmatching
      | frame dash => simp [hphase, Phase.Partial] at hmatching
      | idle => simp
      | _ => by_cases hage : now - since ≤ d.timeoutMs <;> simp [hage]
  obtain ⟨hanswer, hscan⟩ :=
    onScan_start (d := { d.reset with swallowEnter := false }) rfl hfirst now
  have hpush : d.reset.pushKey now (.char c) = ({ d.reset with swallowEnter := false }).start c now :=
    rfl
  rw [push_eq, hreset, hwhat, hpush, hanswer]
  refine ⟨?_, hscan⟩
  split_ifs <;> rfl

/-- How much of a scan is matched. -/
def matchedLen (d : ScanDetector) : ℕ :=
  match d.phase with
  | .inPrefix n => n
  | .prefixDone => d.scannerPrefix.length
  | .halfMagic => d.scannerPrefix.length + 1
  | .version => d.scannerPrefix.length + 2
  | .body _ => d.scannerPrefix.length + 2 + d.body.length
  | _ => 0

theorem matchedLen_start (hphase : d.phase = .idle) (c : Char) (now : ℕ) :
    (d.start c now).1.matchedLen ≤ 1 := by
  unfold start
  split
  · rename_i hscanner
    split_ifs <;> simp [matchedLen, hscanner, hphase]
  · rename_i first more hscanner
    cases more <;> split_ifs <;> simp_all [matchedLen]

theorem matchedLen_releaseWith (d : ScanDetector) (c : Char) (now : ℕ) :
    (d.releaseWith c now).1.matchedLen ≤ 1 := by
  have hstart := matchedLen_start (d := d.reset) rfl c now
  unfold releaseWith
  cases hcase : d.reset.start c now with
  | mk started fed =>
    rw [hcase] at hstart
    cases fed <;> exact hstart

/-- A character in time completes one more character of a scan or starts over. -/
theorem matchedLen_pushChar (hholds : d.Holds pending) (c : Char) (now : ℕ) :
    (d.pushChar c now).1.matchedLen = d.matchedLen + 1 ∨ (d.pushChar c now).1.matchedLen ≤ 1 := by
  unfold ScanDetector.pushChar
  simp only
  cases hphase : d.phase with
  | idle => exact .inr (matchedLen_start rfl c now)
  | inPrefix n =>
    simp only
    split_ifs with hc hlast
    · exact .inl (by simp [hold, matchedLen, hphase, hlast])
    · exact .inl (by simp [hold, matchedLen, hphase])
    · exact .inr (matchedLen_releaseWith _ c now)
  | version =>
    obtain ⟨hbody, -⟩ := hholds.pending_eq (by simp [hphase]) (by simp [hphase])
    simp only [pushVersion]
    split
    · exact .inl (by simp [matchedLen, hphase, hbody])
    · exact .inr (by simp [matchedLen, reset])
  | body total =>
    simp only [pushBody]
    split_ifs
    · exact .inr (by simp [matchedLen, finish, reset])
    · exact .inl (by simp [matchedLen, hphase]; omega)
  | frame dash =>
    simp only [pushFrame]
    split_ifs <;> simp [matchedLen, finishFrame, reset]
  | _ =>
    simp only
    split_ifs
    all_goals first
      | exact .inr (matchedLen_releaseWith _ c now)
      | simp [hold, matchedLen, hphase]

/-- A character completes one more character of a scan or starts over. -/
theorem matchedLen_push (hholds : d.Holds pending) (c : Char) (now : ℕ) :
    (d.push (.char c) now).1.matchedLen = d.matchedLen + 1 ∨
      (d.push (.char c) now).1.matchedLen ≤ 1 := by
  rw [push_eq]
  rcases d.expire_cases now with hsame | ⟨hreset, -⟩
  · rw [hsame]
    exact matchedLen_pushChar hholds c now
  · rw [hreset]
    rcases matchedLen_pushChar d.holds_reset c now with hnext | hsmall
    · exact .inr hnext.le
    · exact .inr hsmall

theorem start_ne_scan (d : ScanDetector) (c : Char) (now : ℕ)
    (result : Except ScanParseError ScanPayload) : (d.start c now).2 ≠ .scan result := by
  unfold start
  split <;> split_ifs <;> simp

theorem releaseWith_ne_scan (d : ScanDetector) (c : Char) (now : ℕ)
    (result : Except ScanParseError ScanPayload) : (d.releaseWith c now).2 ≠ .scan result := by
  have hstart := d.reset.start_ne_scan c now result
  unfold releaseWith
  cases hcase : d.reset.start c now with
  | mk started fed =>
    rw [hcase] at hstart
    cases fed with
    | held => cases hout : (d.held.map ScanKey.char).isEmpty <;> simp [hout]
    | pass keys => simp
    | scan other => exact hstart
    | frame body => simp

/-- Only the last character of a whole payload completes a scan. -/
theorem matchedLen_of_scan (hholds : d.Holds pending) {payload : ScanPayload}
    (hscan : (d.push (.char c) now).2 = .scan (.ok payload)) :
    d.matchedLen = d.scannerPrefix.length + 10 := by
  have hfed : ((d.expire now).1.pushChar c now).2 = .scan (.ok payload) := by
    rw [push_eq] at hscan
    revert hscan
    simp only [pushKey]
    cases (d.expire now).2 <;> cases ((d.expire now).1.pushChar c now).2 <;> simp [withStale]
  rcases d.expire_cases now with hsame | ⟨hreset, -⟩
  · rw [hsame] at hfed
    revert hfed
    unfold ScanDetector.pushChar
    simp only
    cases hphase : d.phase with
    | idle => exact fun h ↦ absurd h (start_ne_scan _ c now _)
    | version =>
      simp only [pushVersion]
      split <;> simp
    | body total =>
      have hmatched := hholds.matched
      have hpending := hholds.pending
      rw [hphase] at hmatched hpending
      obtain ⟨rfl, -⟩ := hmatched
      obtain ⟨typed, -, hshort, hbody, -⟩ := hpending
      have hlength : d.body.length = typed.length := by simp [hbody, toAsciiUppercase]
      simp only [pushBody]
      split_ifs with hfull
      · intro
        simp only [v1Len, magicLen, ShortId.len, List.length_append, List.length_cons,
          List.length_nil] at hfull hshort
        simp only [matchedLen, hphase]
        omega
      · simp
    | frame dash =>
      simp only [pushFrame]
      split_ifs <;> simp [finishFrame]
    | _ =>
      simp only
      split_ifs
      all_goals first
        | exact fun h ↦ absurd h (releaseWith_ne_scan _ c now _)
        | simp [hold]
  · rw [hreset] at hfed
    exact absurd hfed (start_ne_scan _ c now _)

/-- A first character that goes on with what is held does not begin a scan. -/
theorem matchedLen_of_takes (hholds : d.Holds pending) (hmatching : d.phase.Partial)
    (hnow : (d.expire now).2 = .nothing) (htakes : d.phase.takes d.scannerPrefix c = true) :
    (d.push (.char c) now).1.matchedLen ≠ 1 := by
  have hmatched := hholds.matched
  rw [push_char_of_nothing hnow]
  unfold ScanDetector.pushChar
  simp only
  cases hphase : d.phase with
  | idle => simp [hphase, Phase.takes] at htakes
  | body total => simp [hphase, Phase.Partial] at hmatching
  | frame dash => simp [hphase, Phase.Partial] at hmatching
  | inPrefix n =>
    rw [hphase] at hmatched
    have hc : d.scannerPrefix[n]? = some c := by simpa [hphase, Phase.takes] using htakes
    have hpos := hmatched.1
    simp only [if_pos hc]
    split_ifs with hlast
    · simp [hold, matchedLen]
      omega
    · simp [hold, matchedLen]
      omega
  | prefixDone =>
    rw [hphase] at hmatched
    have hpos : 0 < d.scannerPrefix.length := List.length_pos_iff.mpr hmatched.1
    simp only
    split_ifs with hmagic hframe
    · simp [hold, matchedLen, hmatched.1]
    · simp [hold, matchedLen]
    · simp [hphase, Phase.takes, hmagic, hframe] at htakes
  | halfMagic =>
    have hc : c = magicChar := by simpa [hphase, Phase.takes] using htakes
    simp [hc, hold, matchedLen]
  | halfFrame =>
    have hc : c = frameChar := by simpa [hphase, Phase.takes] using htakes
    simp [hc, hold, matchedLen]
  | frameOpen =>
    have hc : c = version1 := by simpa [hphase, Phase.takes] using htakes
    simp [hc, hold, matchedLen]
  | version =>
    simp only [pushVersion]
    split <;> simp [matchedLen, reset]
    omega

end FirstKey

/-! ### When a scan is recognised -/

section Recognising

variable {d : ScanDetector} {pending : List ScanKey}

/-- What a detector holds after some more keys. -/
theorem Holds.after (hholds : d.Holds pending) (keys : List (ScanKey × ℕ)) :
    ∃ pending', (d.after keys).Holds pending' ∧ (d.after keys).settings = d.settings := by
  induction keys generalizing d pending with
  | nil => exact ⟨pending, hholds, rfl⟩
  | cons stroke keys ih =>
    obtain ⟨key, now⟩ := stroke
    obtain ⟨-, middle, -, hmiddle, hsettings, -⟩ := accounts_call hholds (.key key now)
    obtain ⟨pending', hend, hsame⟩ := ih hmiddle
    exact ⟨pending', hend, hsame.trans hsettings⟩

/-- After some characters a scan that was not started among them is as long as before and they
together; any other has no more characters than there are of them. -/
theorem matchedLen_after (hholds : d.Holds pending) {keys : List (ScanKey × ℕ)} {chars : Text}
    (hkeys : keys.map Prod.fst = chars.map .char) :
    (d.after keys).matchedLen = d.matchedLen + keys.length ∨
      (d.after keys).matchedLen ≤ keys.length := by
  induction keys generalizing d pending chars with
  | nil => exact .inl rfl
  | cons stroke keys ih =>
    obtain ⟨key, now⟩ := stroke
    obtain ⟨c, chars, rfl⟩ : ∃ c more, chars = c :: more := by
      cases chars with
      | nil => cases hkeys
      | cons c more => exact ⟨c, more, rfl⟩
    obtain ⟨rfl, hrest⟩ := List.cons.inj hkeys
    obtain ⟨-, middle, -, hmiddle, -, -⟩ := accounts_call hholds (.key (.char c) now)
    have hfirst := matchedLen_push hholds c now
    have hlater := ih hmiddle hrest
    rw [after_cons, List.length_cons]
    simp only [ScanDetector.call] at hlater
    omega

/-- A payload that a detector reports has an action a payload can have. -/
theorem inRange_of_scan (hholds : d.Holds pending) {key : ScanKey} {now : ℕ}
    {payload : ScanPayload} (hscan : (d.push key now).2 = .scan (.ok payload)) :
    payload.action.InRange := by
  obtain ⟨pieces, -, -, -, -, hpieces⟩ := accounts_call hholds (.key key now)
  have hmem : Recognised.scan (.ok payload) ∈ pieces.flatMap Piece.recognised := by
    rw [hpieces.recognised, recognised, hscan]
    exact List.mem_append_right _ List.mem_cons_self
  obtain ⟨piece, hpiece, hwhat⟩ := List.mem_flatMap.mp hmem
  cases piece with
  | typing keys => cases hwhat
  | unit what keys =>
    obtain rfl := List.mem_singleton.mp hwhat
    rcases hpieces.fits _ hpiece with ⟨typed, ending, -, -, hparse⟩ | ⟨c, -, -, hversion⟩
    · exact (ScanPayload.parse_eq_ok_iff.mp hparse.symm).1
    · cases hversion

/-- The last answer to a stream is the answer to its last key. -/
theorem getLast?_pushAll_concat (d : ScanDetector) (keys : List (ScanKey × ℕ)) (key : ScanKey)
    (now : ℕ) : (d.pushAll (keys ++ [(key, now)])).2.getLast? = some ((d.after keys).push key now).2 := by
  induction keys generalizing d with
  | nil => rfl
  | cons stroke keys ih =>
    obtain ⟨first, time⟩ := stroke
    simp only [List.cons_append, ScanDetector.pushAll, after_cons]
    rw [List.getLast?_cons, ih]
    rfl

/-- What follows the version in a payload's code. -/
theorem exists_payloadTail {payload : ScanPayload} {code : Text} (hcode : payload.encode = some code) :
    ∃ tail, PayloadTail tail ∧ code = magic ++ version1 :: tail := by
  obtain ⟨v, -, hencode⟩ := payload.encode_eq
  refine ⟨_, ⟨toAsciiUppercase_digitText _, ?_⟩, Option.some.inj (hcode.symm.trans hencode)⟩
  simp [digitText, payload.shortId.length_digits]

/-- A scan whose first character goes on with what is held is missed. -/
theorem not_scan_of_takes (hholds : d.Holds pending) (hmatching : d.phase.Partial) {first : Char}
    {now : ℕ} {rest : List (ScanKey × ℕ)} {missing : Text} {payload : ScanPayload}
    (hnow : (d.expire now).2 = .nothing) (htakes : d.phase.takes d.scannerPrefix first = true)
    (hkeys : rest.map Prod.fst = missing.map .char)
    (hlength : missing.length = d.scannerPrefix.length + 10) :
    (d.pushAll ((.char first, now) :: rest)).2.getLast? ≠ some (.scan (.ok payload)) := by
  intro hlast
  have hcount : rest.length = d.scannerPrefix.length + 10 := by
    rw [← hlength]
    simpa using congrArg List.length hkeys
  obtain ⟨middle, ⟨key, time⟩, rfl⟩ : ∃ middle last, rest = middle ++ [last] := by
    have hne : rest ≠ [] := by
      rintro rfl
      cases hcount
    exact ⟨_, _, (List.dropLast_append_getLast hne).symm⟩
  obtain ⟨chars, ending, rfl, hmiddle, hending⟩ := List.append_eq_map_iff.mp (by
    rw [← hkeys, List.map_append])
  obtain ⟨c, rfl, rfl⟩ : ∃ c, ending = [c] ∧ key = .char c := by
    cases ending with
    | nil => cases hending
    | cons c more =>
      obtain ⟨rfl, hmore⟩ := List.cons.inj hending
      exact ⟨c, by rw [List.map_eq_nil_iff.mp hmore], rfl⟩
  obtain ⟨-, held, -, hheld, hsettings, -⟩ := accounts_call hholds (.key (.char first) now)
  simp only [ScanDetector.call] at hheld hsettings
  obtain ⟨held', hheld', hsettings'⟩ := hheld.after middle
  rw [← List.cons_append, getLast?_pushAll_concat, after_cons, Option.some.injEq] at hlast
  have hcomplete := matchedLen_of_scan hheld' hlast
  rw [show ScanDetector.scannerPrefix _ = d.scannerPrefix from
    congrArg Prod.fst (hsettings'.trans hsettings)] at hcomplete
  have hgrown := matchedLen_after hheld hmiddle.symm
  have hfirst := matchedLen_of_takes hholds hmatching hnow htakes
  simp only [List.length_append, List.length_cons, List.length_nil] at hcount
  omega

/-- A scan that comes in time is recognised, and what was held before is handed on, exactly when its
first character starts it: what is held is stale or broken by that character. It never starts behind
two magic characters. -/
theorem recognises_iff {scannerPrefix : Text} {enterTerminates : Bool}
    {timeoutMs frameTimeoutMs : ℕ} {calls : List Call} {payload : ScanPayload} {code : Text}
    {first : Char} {now : ℕ} {rest : List (ScanKey × ℕ)}
    (hmatching : ((configured scannerPrefix enterTerminates timeoutMs frameTimeoutMs).run
      calls).phase.Partial)
    (hcode : payload.encode = some code)
    (hkeys : (((.char first, now) :: rest).map Prod.fst : List ScanKey) =
      (scannerPrefix ++ code).map .char)
    (htime : Within timeoutMs ((.char first, now) :: rest)) :
    let d := (configured scannerPrefix enterTerminates timeoutMs frameTimeoutMs).run calls
    d.Recognises payload ((.char first, now) :: rest) ↔
      payload.action.InRange ∧ d.phase ≠ .version ∧
        (d.Stale now ∨ d.phase.takes scannerPrefix first = false) := by
  intro d
  obtain ⟨-, pending, -, hholds, hsettings, -⟩ := exists_pieces
    (holds_configured scannerPrefix enterTerminates timeoutMs frameTimeoutMs) calls
  obtain ⟨tail, htail, rfl⟩ := exists_payloadTail hcode
  have hscanner : d.scannerPrefix = scannerPrefix := congrArg (·.1) hsettings
  have htimeout : d.timeoutMs = timeoutMs := congrArg (·.2.2.1) hsettings
  obtain ⟨missing, hfirst, hrest⟩ : ∃ missing,
      d.scannerPrefix ++ magic ++ version1 :: tail = first :: missing ∧
        rest.map Prod.fst = missing.map .char := by
    rw [hscanner, List.append_assoc]
    obtain ⟨c, missing, hchars, hc, hmissing⟩ := List.map_eq_cons_iff.mp hkeys.symm
    cases hc
    exact ⟨missing, hchars, hmissing.symm⟩
  have hbehind : ∀ key ∈ rest, key.2 ≤ now + d.timeoutMs := by
    intro key hkey
    rw [htimeout]
    exact htime _ List.mem_cons_self _ (List.mem_cons_of_mem _ hkey)
  have hlength : missing.length = d.scannerPrefix.length + 10 := by
    have hcount := congrArg List.length hfirst
    simp only [List.length_append, List.length_cons, htail.length, magic, List.length_nil] at hcount
    omega
  rw [← hscanner]
  constructor
  · rintro ⟨hlast, hreleased⟩
    have hrange : payload.action.InRange := by
      obtain ⟨before, ⟨key, time⟩, hsplit⟩ : ∃ before last, (.char first, now) :: rest = before ++ [last] :=
        ⟨_, _, (List.dropLast_append_getLast (List.cons_ne_nil _ _)).symm⟩
      rw [hsplit, getLast?_pushAll_concat, Option.some.injEq] at hlast
      obtain ⟨pending', hbefore, -⟩ := hholds.after before
      exact inRange_of_scan hbefore hlast
    by_cases hnow : (d.expire now).2 = .nothing
    · have htakes : d.phase.takes d.scannerPrefix first = false := by
        by_contra htakes
        exact not_scan_of_takes hholds hmatching hnow (by simpa using htakes) hrest hlength hlast
      refine ⟨hrange, ?_, .inr htakes⟩
      intro hversion
      rw [hversion] at htakes
      cases htakes
    · refine ⟨hrange, ?_, .inl ((expire_ne_nothing_iff hmatching now).mp hnow).2⟩
      intro hversion
      -- the magic that went stale is dropped, not handed on
      obtain ⟨hsilent, hscan⟩ := onScan_of_stale hmatching hnow hfirst
      rw [if_pos hversion] at hsilent
      have hdone := pushAll_of_start htail hsilent hscan hrest hbehind
      rw [hdone.2] at hreleased
      have hmatched := hholds.matched
      rw [hversion] at hmatched
      rw [show d.held = _ from hmatched] at hreleased
      simp [magic] at hreleased
  · rintro ⟨hrange, hversion, hstarts⟩
    have hparse : ScanPayload.parse (magic ++ version1 :: tail) = .ok payload := by
      rw [ScanPayload.parse_eq_ok_iff, ScanPayload.trim_encode hcode]
      exact ⟨hrange, hcode⟩
    by_cases hnow : (d.expire now).2 = .nothing
    · have htakes : d.phase.takes d.scannerPrefix first = false := by
        rcases hstarts with hstale | htakes
        · have hidle : d.phase = .idle := by
            by_contra hbusy
            exact (expire_ne_nothing_iff hmatching now).mpr ⟨hbusy, hstale⟩ hnow
          rw [hidle]
          rfl
        · exact htakes
      obtain ⟨hreleased, hscan⟩ := onScan_of_not_takes hholds hnow htakes hfirst
      have hdone := pushAll_of_start htail hreleased hscan hrest hbehind
      rwa [hparse] at hdone
    · obtain ⟨hreleased, hscan⟩ := onScan_of_stale hmatching hnow hfirst
      rw [if_neg hversion] at hreleased
      have hdone := pushAll_of_start htail hreleased hscan hrest hbehind
      rwa [hparse] at hdone

/-- A scan on a detector nobody has typed anything into. -/
theorem recognises_startPause :
    ((configured [] false 2000 20000).run []).Recognises ⟨.startPause, ShortId.fromIndex 0⟩
      ((.char '.', 0) :: atOnce ((text ".1S0000008").map .char)) :=
  (@recognises_iff [] false 2000 20000 [] ⟨.startPause, ShortId.fromIndex 0⟩ (text "..1S0000008") '.' 0
    (atOnce ((text ".1S0000008").map .char)) trivial (by decide +kernel) (by decide +kernel)
    (within_atOnce 2000 ((text "..1S0000008").map .char))).mpr ⟨trivial, by decide, .inr rfl⟩

/-- Behind a stray period a scan is reported as a bad version and typed into the application. -/
theorem stray_period_hides_scan :
    ¬ ∀ (scannerPrefix : Text) (enterTerminates : Bool) (timeoutMs frameTimeoutMs : ℕ)
      (calls : List Call) (payload : ScanPayload) (code : Text) (keys : List (ScanKey × ℕ)),
      payload.action.InRange →
      ((configured scannerPrefix enterTerminates timeoutMs frameTimeoutMs).run calls).phase.Partial →
      payload.encode = some code → keys.map Prod.fst = (scannerPrefix ++ code).map ScanKey.char →
      Within timeoutMs keys →
        ((configured scannerPrefix enterTerminates timeoutMs frameTimeoutMs).run calls).Recognises
          payload keys := by
  intro h
  have hscan := h [] false 2000 20000 [.key (.char '.') 0] ⟨.startPause, ShortId.fromIndex 0⟩
    (text "..1S0000008") (atOnce ((text "..1S0000008").map .char)) trivial trivial
    (by decide +kernel) (by decide +kernel) (within_atOnce _ _)
  exact absurd hscan.1 (by decide +kernel)

end Recognising

end ScanDetector

end Taskologic.Core
