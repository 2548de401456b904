import Taskologic.Core.Barcode
import Taskologic.Library.Framing

/-!
# What the scan detector does with a stream of keys

A stream of keys, each with its time, takes a detector to a state (`ScanDetector.after`) and makes it
deliver answers other than swallowing the key (`ScanDetector.delivered`). `ScanDetector.InTime` says
that no key of the stream finds what is in progress stale.

Two phases matter to control frames. Opening: an idle detector that receives the scanner's prefix
and `--1` in time swallows all of it and is inside a frame (`ScanDetector.inFrame_of_toOpen`).
Reading: inside a frame the detector is the reader of doubled delimiters of
`Taskologic.Library.Framing`, with Enter keys left out
(`ScanDetector.InFrame.delivered_of_unframe_eq_none`,
`ScanDetector.InFrame.delivered_of_unframe_eq_some`).
-/

set_option autoImplicit false
set_option relaxedAutoImplicit false

namespace Taskologic.Core

open Library

namespace ScanDetector

/-! ### Streams -/

/-- The detector after a stream of keys. -/
def after (d : ScanDetector) (keys : List (ScanKey × ℕ)) : ScanDetector := (d.pushAll keys).1

/-- The answers to a stream of keys that are more than swallowing a key: scans, frames and keys
passed through as typing. -/
def delivered (d : ScanDetector) (keys : List (ScanKey × ℕ)) : List Feed :=
  (d.pushAll keys).2.filter (· ≠ .held)

/-- No key of the stream comes after the timeout of what is in progress. -/
def InTime (d : ScanDetector) : List (ScanKey × ℕ) → Prop
  | [] => True
  | (key, now) :: rest => (d.expire now).2 = .nothing ∧ (d.push key now).1.InTime rest

/-- Keys that all come at one time. -/
def atOnce (keys : List ScanKey) : List (ScanKey × ℕ) := keys.map fun key ↦ (key, 0)

instance decidableInTime (d : ScanDetector) (keys : List (ScanKey × ℕ)) : Decidable (d.InTime keys) :=
  match keys with
  | [] => isTrue trivial
  | (key, now) :: rest =>
    have : Decidable ((d.push key now).1.InTime rest) := decidableInTime _ rest
    inferInstanceAs (Decidable (_ ∧ _))

/-- The characters among some keys, Enter left out. -/
def charsOf (strokes : List ScanKey) : Text :=
  strokes.filterMap fun
    | .char c => some c
    | .enter => none

/-- The characters of a stream, Enter keys left out. -/
def typed (keys : List (ScanKey × ℕ)) : Text := charsOf (keys.map Prod.fst)

@[simp] theorem after_nil (d : ScanDetector) : d.after [] = d := rfl

@[simp] theorem delivered_nil (d : ScanDetector) : d.delivered [] = [] := rfl

theorem after_cons (d : ScanDetector) (key : ScanKey) (now : ℕ) (rest : List (ScanKey × ℕ)) :
    d.after ((key, now) :: rest) = (d.push key now).1.after rest := rfl

theorem delivered_cons (d : ScanDetector) (key : ScanKey) (now : ℕ) (rest : List (ScanKey × ℕ)) :
    d.delivered ((key, now) :: rest) =
      [(d.push key now).2].filter (· ≠ .held) ++ (d.push key now).1.delivered rest := by
  simp only [delivered, pushAll, List.filter_cons, List.filter_nil]
  split <;> simp_all

theorem after_append (d : ScanDetector) (first second : List (ScanKey × ℕ)) :
    d.after (first ++ second) = (d.after first).after second := by
  induction first generalizing d with
  | nil => rfl
  | cons stroke first ih =>
    obtain ⟨key, now⟩ := stroke
    rw [List.cons_append, after_cons, after_cons, ih]

theorem delivered_append (d : ScanDetector) (first second : List (ScanKey × ℕ)) :
    d.delivered (first ++ second) = d.delivered first ++ (d.after first).delivered second := by
  induction first generalizing d with
  | nil => rfl
  | cons stroke first ih =>
    obtain ⟨key, now⟩ := stroke
    rw [List.cons_append, delivered_cons, delivered_cons, after_cons, ih, List.append_assoc]

theorem inTime_append (d : ScanDetector) (first second : List (ScanKey × ℕ)) :
    d.InTime (first ++ second) ↔ d.InTime first ∧ (d.after first).InTime second := by
  induction first generalizing d with
  | nil => simp [InTime]
  | cons stroke first ih =>
    obtain ⟨key, now⟩ := stroke
    simp only [List.cons_append, InTime, ih, after_cons, and_assoc]

@[simp] theorem charsOf_append (first second : List ScanKey) :
    charsOf (first ++ second) = charsOf first ++ charsOf second := List.filterMap_append

@[simp] theorem charsOf_map_char (s : Text) : charsOf (s.map .char) = s := by
  simp [charsOf, List.filterMap_map]

@[simp] theorem charsOf_nil : charsOf [] = [] := rfl

@[simp] theorem charsOf_enter_cons (strokes : List ScanKey) :
    charsOf (.enter :: strokes) = charsOf strokes := rfl

@[simp] theorem charsOf_char_cons (c : Char) (strokes : List ScanKey) :
    charsOf (.char c :: strokes) = c :: charsOf strokes := rfl

@[simp] theorem typed_nil : typed [] = [] := rfl

@[simp] theorem typed_char_cons (c : Char) (now : ℕ) (rest : List (ScanKey × ℕ)) :
    typed ((.char c, now) :: rest) = c :: typed rest := rfl

@[simp] theorem typed_enter_cons (now : ℕ) (rest : List (ScanKey × ℕ)) :
    typed ((.enter, now) :: rest) = typed rest := rfl

/-- The end of a stream that holds no character lies behind every character of the stream. -/
theorem suffix_of_charsOf_eq_nil {front tail ending : List ScanKey} {c : Char}
    (hsuffix : ending <:+ front ++ .char c :: tail) (hchars : charsOf ending = []) :
    ending <:+ tail := by
  have hmem : ScanKey.char c ∉ ending := fun hmem ↦ by
    have hc : c ∈ charsOf ending := List.mem_filterMap.mpr ⟨_, hmem, rfl⟩
    rw [hchars] at hc
    cases hc
  rcases List.suffix_or_suffix_of_suffix hsuffix (List.suffix_append front (.char c :: tail)) with
    hinside | houtside
  · rcases List.suffix_cons_iff.mp hinside with rfl | htail
    · exact absurd List.mem_cons_self hmem
    · exact htail
  · exact absurd (houtside.subset List.mem_cons_self) hmem

/-! ### Keys in time -/

/-- Expiring either finds nothing and changes nothing or drops whatever is in progress. -/
theorem expire_cases (d : ScanDetector) (now : ℕ) :
    d.expire now = (d, .nothing) ∨ (d.expire now).1 = d.reset ∧ (d.expire now).2 ≠ .nothing := by
  unfold expire
  split
  · exact .inl rfl
  · simp only
    split
    · exact .inl rfl
    all_goals
      split
      · exact .inl rfl
      · exact .inr ⟨rfl, by simp⟩

theorem expire_of_nothing {d : ScanDetector} {now : ℕ} (h : (d.expire now).2 = .nothing) :
    (d.expire now).1 = d := by
  rcases d.expire_cases now with hexpire | ⟨-, hstale⟩
  · rw [hexpire]
  · exact absurd h hstale

theorem push_char_of_nothing {d : ScanDetector} {now : ℕ} (h : (d.expire now).2 = .nothing)
    (c : Char) : d.push (.char c) now = d.pushChar c now := by
  simp only [push, h, expire_of_nothing h, withStale]

theorem push_enter_of_nothing {d : ScanDetector} {now : ℕ} (h : (d.expire now).2 = .nothing) :
    d.push .enter now = d.pushEnter now := by
  simp only [push, h, expire_of_nothing h, withStale]

/-- A character that comes in time and is swallowed moves the stream on by one key. -/
theorem delivered_cons_of_held {d : ScanDetector} {c : Char} {now : ℕ}
    {rest : List (ScanKey × ℕ)} (hnow : (d.expire now).2 = .nothing)
    (hheld : (d.pushChar c now).2 = .held) :
    d.delivered ((.char c, now) :: rest) = (d.pushChar c now).1.delivered rest := by
  rw [delivered_cons, push_char_of_nothing hnow, hheld]
  simp

/-! ### Opening a frame -/

/-- The opening of a frame after the scanner's prefix. -/
def frameStart : Text := [frameChar, frameChar, version1]

/-- The characters that are still missing before a frame is open. -/
def toOpen (scannerPrefix : Text) : Phase → Option Text
  | .idle => some (scannerPrefix ++ frameStart)
  | .inPrefix n =>
    if n < scannerPrefix.length then some (scannerPrefix.drop n ++ frameStart) else none
  | .prefixDone => some frameStart
  | .halfFrame => some [frameChar, version1]
  | .frameOpen => some [version1]
  | _ => none

/-- A detector inside a frame it has read the body of so far, under the configuration of `d`. -/
structure InFrame (d : ScanDetector) (dash : Bool) (body : Text) (open_ : ScanDetector) : Prop where
  phase : open_.phase = .frame dash
  body_eq : open_.body = body
  scannerPrefix : open_.scannerPrefix = d.scannerPrefix
  enterTerminates : open_.enterTerminates = d.enterTerminates

/-- The next missing character is swallowed. The last one opens the frame. -/
theorem pushChar_of_toOpen {d : ScanDetector} {c : Char} {rest : Text}
    (hopen : toOpen d.scannerPrefix d.phase = some (c :: rest)) (now : ℕ) :
    (d.pushChar c now).2 = .held ∧ (d.pushChar c now).1.scannerPrefix = d.scannerPrefix ∧
      (d.pushChar c now).1.enterTerminates = d.enterTerminates ∧
      ((rest = [] ∧ (d.pushChar c now).1.phase = .frame false ∧ (d.pushChar c now).1.body = []) ∨
        toOpen d.scannerPrefix (d.pushChar c now).1.phase = some rest) := by
  obtain ⟨scannerPrefix, enterTerminates, timeoutMs, frameTimeoutMs, phase, held, body, since,
    swallowEnter, lastScanMs⟩ := d
  simp only at hopen
  cases phase with
  | idle =>
    cases scannerPrefix with
    | nil =>
      obtain ⟨rfl, rfl⟩ : frameChar = c ∧ [frameChar, version1] = rest := by
        simpa [toOpen, frameStart] using hopen
      exact ⟨rfl, rfl, rfl, .inr rfl⟩
    | cons first more =>
      obtain ⟨rfl, rfl⟩ : first = c ∧ more ++ frameStart = rest := by
        simpa [toOpen] using hopen
      simp only [pushChar, start, if_true, true_and]
      cases more <;> simp [toOpen]
  | inPrefix n =>
    simp only [toOpen] at hopen
    split at hopen
    · rename_i hn
      rw [List.drop_eq_getElem_cons hn, List.cons_append, Option.some.injEq, List.cons.injEq] at hopen
      obtain ⟨rfl, rfl⟩ := hopen
      simp only [pushChar, List.getElem?_eq_getElem hn, if_true, hold, true_and]
      by_cases hlast : n + 1 = scannerPrefix.length
      · simp [toOpen, hlast]
      · have hmore : n + 1 < scannerPrefix.length := by omega
        simp [toOpen, hlast, hmore]
    · cases hopen
  | prefixDone =>
    cases hopen
    exact ⟨rfl, rfl, rfl, .inr rfl⟩
  | halfFrame =>
    cases hopen
    exact ⟨rfl, rfl, rfl, .inr rfl⟩
  | frameOpen =>
    cases hopen
    exact ⟨rfl, rfl, rfl, .inl ⟨rfl, rfl, rfl⟩⟩
  | halfMagic => cases hopen
  | version => cases hopen
  | body total => cases hopen
  | frame dash => cases hopen

/-- There is always something missing before a frame is open. -/
theorem toOpen_ne_some_nil (scannerPrefix : Text) (phase : Phase) :
    toOpen scannerPrefix phase ≠ some [] := by
  cases phase <;> simp [toOpen, frameStart]

/-- The missing characters, in time, are swallowed and leave the detector inside an empty frame. -/
theorem inFrame_of_toOpen {d : ScanDetector} {missing : Text} {keys : List (ScanKey × ℕ)}
    (hopen : toOpen d.scannerPrefix d.phase = some missing)
    (hkeys : keys.map Prod.fst = missing.map .char) (htime : d.InTime keys) :
    d.delivered keys = [] ∧ InFrame d false [] (d.after keys) := by
  induction missing generalizing d keys with
  | nil => exact absurd hopen (toOpen_ne_some_nil _ _)
  | cons c missing ih =>
    rw [List.map_cons, List.map_eq_cons_iff] at hkeys
    obtain ⟨⟨key, now⟩, rest, rfl, rfl, hrest⟩ := hkeys
    obtain ⟨hnow, htimeRest⟩ := htime
    obtain ⟨hheld, hscanner, henter, hnext⟩ := pushChar_of_toOpen hopen now
    rw [push_char_of_nothing hnow] at htimeRest
    rw [delivered_cons_of_held hnow hheld, after_cons, push_char_of_nothing hnow]
    rcases hnext with ⟨rfl, hphase, hbody⟩ | hnext
    · obtain rfl : rest = [] := by simpa using hrest
      exact ⟨rfl, hphase, hbody, hscanner, henter⟩
    · rw [← hscanner] at hnext
      obtain ⟨hdelivered, hframe⟩ := ih hnext hrest htimeRest
      exact ⟨hdelivered, hframe.phase, hframe.body_eq, hframe.scannerPrefix.trans hscanner,
        hframe.enterTerminates.trans henter⟩

/-- A stream of the scanner's prefix, the frame's start and more is read as a frame from there. -/
theorem exists_inFrame_of_isIdle {d : ScanDetector} (hidle : d.isIdle) {stream : List ScanKey}
    {keys : List (ScanKey × ℕ)}
    (hkeys : keys.map Prod.fst = (d.scannerPrefix ++ frameStart).map ScanKey.char ++ stream)
    (htime : d.InTime keys) :
    ∃ rest reader, rest.map Prod.fst = stream ∧ InFrame d false [] reader ∧ reader.InTime rest ∧
      d.delivered keys = reader.delivered rest ∧ d.after keys = reader.after rest := by
  obtain ⟨opening, rest, rfl, hopening, hrest⟩ := List.map_eq_append_iff.mp hkeys
  obtain ⟨htimeOpening, htimeRest⟩ := (d.inTime_append _ _).mp htime
  have hphase : d.phase = .idle := by simpa [isIdle] using hidle
  obtain ⟨hsilent, hframe⟩ := inFrame_of_toOpen
    (show toOpen d.scannerPrefix d.phase = some (d.scannerPrefix ++ frameStart) by rw [hphase]; rfl)
    hopening htimeOpening
  exact ⟨rest, d.after opening, hrest, hframe, htimeRest,
    by rw [d.delivered_append, hsilent, List.nil_append], d.after_append _ _⟩

/-! ### Reading a frame -/

/-- What closing a frame leaves behind: nothing in progress, under the configuration of `d`, and the
scanner's Enter to swallow if it sends one. -/
structure Closed (d closed : ScanDetector) : Prop where
  phase : closed.phase = .idle
  held_eq : closed.held = []
  scannerPrefix : closed.scannerPrefix = d.scannerPrefix
  enterTerminates : closed.enterTerminates = d.enterTerminates
  swallowEnter : closed.swallowEnter = d.enterTerminates

section Reading

variable {d reader : ScanDetector} {dash : Bool} {body : Text}

theorem InFrame.pushChar_body (hframe : InFrame d dash body reader) {c : Char} (hc : c ≠ frameChar) (now : ℕ) :
    (reader.pushChar c now).2 = .held ∧
      InFrame d false (body ++ ((if dash then [frameChar] else []) ++ [c]))
        (reader.pushChar c now).1 := by
  obtain ⟨hphase, rfl, hscanner, henter⟩ := hframe
  simp only [pushChar, hphase, pushFrame, if_neg hc, true_and]
  exact ⟨rfl, by simp, hscanner, henter⟩

theorem InFrame.pushChar_dash (hframe : InFrame d false body reader) (now : ℕ) :
    (reader.pushChar frameChar now).2 = .held ∧
      InFrame d true body (reader.pushChar frameChar now).1 := by
  obtain ⟨hphase, rfl, hscanner, henter⟩ := hframe
  simp only [pushChar, hphase, pushFrame, if_true, Bool.false_eq_true, if_false, true_and]
  exact ⟨rfl, rfl, hscanner, henter⟩

theorem InFrame.pushChar_close (hframe : InFrame d true body reader) (now : ℕ) :
    (reader.pushChar frameChar now).2 = .frame body ∧
      Closed d (reader.pushChar frameChar now).1 := by
  obtain ⟨hphase, rfl, hscanner, henter⟩ := hframe
  simp only [pushChar, hphase, pushFrame, if_true, finishFrame, reset, true_and]
  exact ⟨rfl, rfl, hscanner, henter, henter⟩

theorem InFrame.pushEnter (hframe : InFrame d dash body reader) (now : ℕ) :
    (reader.pushEnter now).2 = .held ∧ InFrame d dash body (reader.pushEnter now).1 := by
  obtain ⟨hphase, rfl, hscanner, henter⟩ := hframe
  unfold ScanDetector.pushEnter
  split
  · exact ⟨rfl, hphase, rfl, hscanner, henter⟩
  · simp only [hphase, true_and]
    exact ⟨rfl, rfl, hscanner, henter⟩

/-- Characters that close no frame are swallowed. -/
theorem InFrame.delivered_of_unframe_eq_none (hframe : InFrame d dash body reader)
    {keys : List (ScanKey × ℕ)} (htime : reader.InTime keys)
    (hread : unframe frameChar dash (typed keys) = none) :
    reader.delivered keys = [] ∧ ∃ dash' body', InFrame d dash' body' (reader.after keys) := by
  induction keys generalizing reader dash body with
  | nil => exact ⟨rfl, dash, body, hframe⟩
  | cons stroke keys ih =>
    obtain ⟨key, now⟩ := stroke
    obtain ⟨hnow, htime⟩ := htime
    cases key with
    | enter =>
      obtain ⟨hheld, hnext⟩ := hframe.pushEnter now
      rw [push_enter_of_nothing hnow] at htime
      rw [delivered_cons, after_cons, push_enter_of_nothing hnow, hheld]
      simpa using ih hnext htime hread
    | char c =>
      rw [push_char_of_nothing hnow] at htime
      rw [typed_char_cons, unframe] at hread
      by_cases hc : c = frameChar
      · subst hc
        cases dash with
        | true => simp at hread
        | false =>
          obtain ⟨hheld, hnext⟩ := hframe.pushChar_dash now
          rw [delivered_cons_of_held hnow hheld, after_cons, push_char_of_nothing hnow]
          exact ih hnext htime (by simpa using hread)
      · obtain ⟨hheld, hnext⟩ := hframe.pushChar_body hc now
        rw [delivered_cons_of_held hnow hheld, after_cons, push_char_of_nothing hnow]
        exact ih hnext htime (by simpa [hc] using hread)

/-- The second of two dashes closes the frame and delivers its body. What comes behind it finds the
detector idle. -/
theorem InFrame.delivered_of_unframe_eq_some (hframe : InFrame d dash body reader)
    {keys : List (ScanKey × ℕ)} (htime : reader.InTime keys) {found late : Text}
    (hread : unframe frameChar dash (typed keys) = some (found, late)) :
    ∃ before now behind closed, keys = before ++ (.char frameChar, now) :: behind ∧
      typed behind = late ∧ Closed d closed ∧ closed.InTime behind ∧
      reader.delivered keys = .frame (body ++ found) :: closed.delivered behind ∧
      reader.after keys = closed.after behind := by
  induction keys generalizing reader dash body found with
  | nil => simp [unframe] at hread
  | cons stroke keys ih =>
    obtain ⟨key, now⟩ := stroke
    obtain ⟨hnow, htime⟩ := htime
    cases key with
    | enter =>
      obtain ⟨hheld, hnext⟩ := hframe.pushEnter now
      rw [push_enter_of_nothing hnow] at htime
      rw [delivered_cons, after_cons, push_enter_of_nothing hnow, hheld]
      obtain ⟨before, closing, behind, closed, rfl, hrest⟩ := ih hnext htime hread
      exact ⟨(.enter, now) :: before, closing, behind, closed, rfl, by simpa using hrest⟩
    | char c =>
      rw [push_char_of_nothing hnow] at htime
      rw [typed_char_cons, unframe] at hread
      by_cases hc : c = frameChar
      · subst hc
        cases dash with
        | true =>
          obtain ⟨hclose, hclosed⟩ := hframe.pushChar_close now
          simp only [if_true, Option.some.injEq, Prod.mk.injEq] at hread
          obtain ⟨rfl, rfl⟩ := hread
          refine ⟨[], now, keys, _, rfl, rfl, hclosed, htime, ?_, ?_⟩
          · rw [delivered_cons, push_char_of_nothing hnow, hclose]
            simp
          · rw [after_cons, push_char_of_nothing hnow]
        | false =>
          obtain ⟨hheld, hnext⟩ := hframe.pushChar_dash now
          rw [delivered_cons_of_held hnow hheld, after_cons, push_char_of_nothing hnow]
          obtain ⟨before, closing, behind, closed, rfl, hrest⟩ :=
            ih hnext htime (by simpa using hread)
          exact ⟨(.char frameChar, now) :: before, closing, behind, closed, rfl, hrest⟩
      · obtain ⟨hheld, hnext⟩ := hframe.pushChar_body hc now
        rw [delivered_cons_of_held hnow hheld, after_cons, push_char_of_nothing hnow]
        simp only [if_neg hc, Option.map_eq_some_iff, Prod.exists, Prod.mk.injEq] at hread
        obtain ⟨found', late', hread, rfl, rfl⟩ := hread
        obtain ⟨before, closing, behind, closed, rfl, hrest⟩ := ih hnext htime hread
        exact ⟨(.char c, now) :: before, closing, behind, closed, rfl, by simpa using hrest⟩

/-- After a frame was closed nothing is passed through but an Enter that was not expected. -/
theorem Closed.delivered_eq_nil {closed : ScanDetector} (hclosed : Closed d closed)
    {keys : List (ScanKey × ℕ)} (htime : closed.InTime keys)
    (hkeys : keys.map Prod.fst <:+ if d.enterTerminates then [.enter] else []) :
    closed.delivered keys = [] ∧ (closed.after keys).isIdle := by
  cases keys with
  | nil => exact ⟨rfl, by simp [isIdle, hclosed.phase]⟩
  | cons stroke keys =>
    obtain ⟨key, now⟩ := stroke
    split at hkeys
    · rename_i henter
      obtain ⟨rfl, rfl⟩ : key = .enter ∧ keys = [] := by
        simpa [List.suffix_cons_iff] using hkeys
      have hswallow : closed.swallowEnter = true := hclosed.swallowEnter.trans henter
      rw [delivered_cons, after_cons, push_enter_of_nothing htime.1]
      simp [ScanDetector.pushEnter, hswallow, isIdle, hclosed.phase]
    · simp at hkeys

end Reading

/-! ### Streams that deliver nothing -/

/-- Inside a task code: what is typed now is never the start of a frame. -/
def InCode (d : ScanDetector) : Prop :=
  d.phase = .halfMagic ∨ d.phase = .version ∨ ∃ total, d.phase = .body total

/-- A character that breaks a partial match hands back what was held. -/
theorem releaseWith_ne_held {d : ScanDetector} (hheld : d.held ≠ []) (c : Char) (now : ℕ) :
    (d.releaseWith c now).2 ≠ .held := by
  cases hstart : d.reset.start c now with
  | mk started fed =>
    simp only [releaseWith, hstart]
    cases fed <;> simp [hheld]

/-- A silent character inside a task code stays inside it. -/
theorem InCode.pushChar {d : ScanDetector} (hcode : d.InCode) (hheld : d.held ≠ []) {c : Char}
    {now : ℕ} (hsilent : (d.pushChar c now).2 = .held) :
    (d.pushChar c now).1.InCode ∧ (d.pushChar c now).1.held ≠ [] := by
  have hrelease := fun swallowEnter ↦
    releaseWith_ne_held (d := { d with swallowEnter }) hheld c now
  rcases hcode with hphase | hphase | ⟨total, hphase⟩
  · simp only [ScanDetector.pushChar, hphase] at hsilent ⊢
    split at hsilent
    · rename_i hc
      simp [hc, hold, InCode]
    · exact absurd hsilent (hrelease false)
  · simp only [ScanDetector.pushChar, hphase, pushVersion] at hsilent ⊢
    split at hsilent
    · simp [InCode, hheld]
    · simp at hsilent
  · simp only [ScanDetector.pushChar, hphase, pushBody] at hsilent ⊢
    split at hsilent
    · simp [finish] at hsilent
    · rename_i hshort
      rw [if_neg hshort]
      exact ⟨.inr (.inr ⟨total, rfl⟩), hheld⟩

/-- An Enter inside a task code is never silent. -/
theorem InCode.pushEnter_ne_held {d : ScanDetector} (hcode : d.InCode)
    (hswallow : d.swallowEnter = false) (now : ℕ) : (d.pushEnter now).2 ≠ .held := by
  rcases hcode with hphase | hphase | ⟨total, hphase⟩ <;>
    simp [ScanDetector.pushEnter, hswallow, hphase, finish]

@[simp] theorem start_swallowEnter (d : ScanDetector) (c : Char) (now : ℕ) :
    (d.start c now).1.swallowEnter = d.swallowEnter := by
  unfold start
  split
  · split
    · rfl
    · split <;> rfl
  · split <;> rfl

@[simp] theorem releaseWith_swallowEnter (d : ScanDetector) (c : Char) (now : ℕ) :
    (d.releaseWith c now).1.swallowEnter = d.swallowEnter := by
  have hstart := d.reset.start_swallowEnter c now
  cases hcase : d.reset.start c now with
  | mk started fed =>
    rw [hcase] at hstart
    simp only [releaseWith, hcase]
    cases fed <;> exact hstart

/-- A character that was swallowed cancels the waiting for the scanner's Enter. -/
theorem swallowEnter_of_held {d : ScanDetector} {c : Char} {now : ℕ}
    (hsilent : (d.pushChar c now).2 = .held) : (d.pushChar c now).1.swallowEnter = false := by
  revert hsilent
  unfold ScanDetector.pushChar
  simp only
  split
  · simp
  · split <;> simp [hold]
  · split
    · simp [hold]
    · split <;> simp [hold]
  · split <;> simp [hold]
  · unfold pushVersion
    split <;> simp
  · simp only [pushBody]
    split <;> simp [finish]
  · split <;> simp [hold]
  · split <;> simp [hold]
  · simp only [pushFrame]
    split
    · split <;> simp [finishFrame]
    · simp

/-- Part of an opening was read, and `missing` would complete it. -/
structure OnTrack (d : ScanDetector) (missing : Text) : Prop where
  toOpen_eq : toOpen d.scannerPrefix d.phase = some missing
  phase_ne : d.phase ≠ .idle
  held_ne : d.held ≠ []
  swallowEnter : d.swallowEnter = false

/-- Only the next missing character or the magic of a task code is silent on the way to a frame. -/
theorem OnTrack.pushChar {d : ScanDetector} {m c : Char} {rest : Text}
    (htrack : d.OnTrack (m :: rest)) {now : ℕ} (hsilent : (d.pushChar c now).2 = .held) :
    (c = m ∧ (rest = [] ∨ (d.pushChar c now).1.OnTrack rest)) ∨
      ((d.pushChar c now).1.InCode ∧ (d.pushChar c now).1.held ≠ []) := by
  have hrelease := releaseWith_ne_held (d := { d with swallowEnter := false }) htrack.held_ne c now
  have htoOpen := htrack.toOpen_eq
  cases hphase : d.phase with
  | idle => exact absurd hphase htrack.phase_ne
  | inPrefix n =>
    simp only [hphase, toOpen] at htoOpen
    split at htoOpen
    · rename_i hn
      rw [List.drop_eq_getElem_cons hn, List.cons_append, Option.some.injEq, List.cons.injEq]
        at htoOpen
      obtain ⟨rfl, rfl⟩ := htoOpen
      simp only [ScanDetector.pushChar, hphase, List.getElem?_eq_getElem hn] at hsilent ⊢
      split at hsilent
      · rename_i hc
        obtain rfl := Option.some.inj hc
        refine .inl ⟨rfl, .inr ?_⟩
        simp only [if_true, hold]
        by_cases hlast : n + 1 = d.scannerPrefix.length
        · exact ⟨by simp [toOpen, hlast], by simp [hlast], by simp, rfl⟩
        · have hmore : n + 1 < d.scannerPrefix.length := by omega
          exact ⟨by simp [toOpen, hlast, hmore], by simp [hlast], by simp, rfl⟩
      · exact absurd hsilent hrelease
    · cases htoOpen
  | prefixDone =>
    obtain ⟨rfl, rfl⟩ : frameChar = m ∧ [frameChar, version1] = rest := by
      simpa [hphase, toOpen, frameStart] using htoOpen
    simp only [ScanDetector.pushChar, hphase] at hsilent ⊢
    split
    · exact .inr ⟨.inl rfl, by simp [hold]⟩
    · rename_i hmagic
      rw [if_neg hmagic] at hsilent
      split at hsilent
      · rename_i hc
        rw [if_pos hc]
        exact .inl ⟨hc, .inr ⟨rfl, by simp [hold], by simp [hold], rfl⟩⟩
      · exact absurd hsilent hrelease
  | halfFrame =>
    obtain ⟨rfl, rfl⟩ : frameChar = m ∧ [version1] = rest := by
      simpa [hphase, toOpen] using htoOpen
    simp only [ScanDetector.pushChar, hphase] at hsilent ⊢
    split at hsilent
    · rename_i hc
      rw [if_pos hc]
      exact .inl ⟨hc, .inr ⟨rfl, by simp [hold], by simp [hold], rfl⟩⟩
    · exact absurd hsilent hrelease
  | frameOpen =>
    obtain ⟨rfl, rfl⟩ : version1 = m ∧ [] = rest := by
      simpa [hphase, toOpen] using htoOpen
    simp only [ScanDetector.pushChar, hphase] at hsilent ⊢
    split at hsilent
    · rename_i hc
      exact .inl ⟨hc, .inl trivial⟩
    · exact absurd hsilent hrelease
  | _ => simp [hphase, toOpen] at htoOpen
/-- An Enter on the way to a frame is never silent. -/
theorem OnTrack.pushEnter_ne_held {d : ScanDetector} {missing : Text} (htrack : d.OnTrack missing)
    (now : ℕ) : (d.pushEnter now).2 ≠ .held := by
  have htoOpen := htrack.toOpen_eq
  have hidle := htrack.phase_ne
  unfold ScanDetector.pushEnter
  rw [htrack.swallowEnter]
  cases hphase : d.phase <;> simp_all [toOpen]

/-- A first character that is silent is on the way to a frame or starts a task code. -/
theorem pushChar_of_idle {d : ScanDetector} (hphase : d.phase = .idle) {c : Char} {now : ℕ}
    (hsilent : (d.pushChar c now).2 = .held) :
    (∃ rest, d.scannerPrefix ++ frameStart = c :: rest ∧ (d.pushChar c now).1.OnTrack rest) ∨
      ((d.pushChar c now).1.InCode ∧ (d.pushChar c now).1.held ≠ []) := by
  simp only [ScanDetector.pushChar, hphase, start] at hsilent ⊢
  cases hscanner : d.scannerPrefix with
  | nil =>
    simp only [hscanner] at hsilent ⊢
    split
    · exact .inr ⟨.inl rfl, by simp⟩
    · rename_i hmagic
      rw [if_neg hmagic] at hsilent
      split at hsilent
      · rename_i hc
        subst hc
        rw [if_pos rfl]
        exact .inl ⟨_, rfl, rfl, by simp, by simp, rfl⟩
      · simp at hsilent
  | cons first more =>
    simp only [hscanner] at hsilent ⊢
    split at hsilent
    · rename_i hc
      subst hc
      rw [if_pos rfl]
      refine .inl ⟨_, rfl, ?_, ?_, by simp, rfl⟩
      · cases more <;> simp [toOpen]
      · cases more <;> simp
    · simp at hsilent

section Silent

variable {d : ScanDetector} {keys : List (ScanKey × ℕ)}

/-- The first key of a silent stream is swallowed, and what comes behind it is silent too. -/
theorem silent_cons {key : ScanKey} {now : ℕ} {rest : List (ScanKey × ℕ)}
    (hsilent : d.delivered ((key, now) :: rest) = []) :
    (d.push key now).2 = .held ∧ (d.push key now).1.delivered rest = [] := by
  rw [delivered_cons, List.append_eq_nil_iff] at hsilent
  exact ⟨by simpa using hsilent.1, hsilent.2⟩

/-- A stream that ends in Enter is not silent inside a task code. -/
theorem InCode.delivered_ne_nil (hcode : d.InCode) (hheld : d.held ≠ [])
    (hswallow : d.swallowEnter = false) (htime : d.InTime keys)
    (hlast : (keys.map Prod.fst).getLast? = some .enter) : d.delivered keys ≠ [] := by
  intro hsilent
  induction keys generalizing d with
  | nil => simp at hlast
  | cons stroke rest ih =>
    obtain ⟨key, now⟩ := stroke
    obtain ⟨hfirst, hrest⟩ := silent_cons hsilent
    cases key with
    | enter =>
      rw [push_enter_of_nothing htime.1] at hfirst
      exact hcode.pushEnter_ne_held hswallow now hfirst
    | char c =>
      have htimeRest := htime.2
      rw [push_char_of_nothing htime.1] at hfirst hrest htimeRest
      obtain ⟨hnext, hheldNext⟩ := hcode.pushChar hheld hfirst
      cases rest with
      | nil => simp at hlast
      | cons next rest =>
        exact ih hnext hheldNext (swallowEnter_of_held hfirst) htimeRest (by simpa using hlast) hrest

/-- On the way to a frame a silent stream that ends in Enter completes the opening. -/
theorem OnTrack.isPrefix_of_silent {missing : Text} (htrack : d.OnTrack missing)
    (htime : d.InTime keys) (hlast : (keys.map Prod.fst).getLast? = some .enter)
    (hsilent : d.delivered keys = []) : missing.map .char <+: keys.map Prod.fst := by
  induction keys generalizing d missing with
  | nil => simp at hlast
  | cons stroke rest ih =>
    obtain ⟨key, now⟩ := stroke
    obtain ⟨hfirst, hrest⟩ := silent_cons hsilent
    cases key with
    | enter =>
      rw [push_enter_of_nothing htime.1] at hfirst
      exact absurd hfirst (htrack.pushEnter_ne_held now)
    | char c =>
      have htimeRest := htime.2
      rw [push_char_of_nothing htime.1] at hfirst hrest htimeRest
      cases missing with
      | nil => exact absurd htrack.toOpen_eq (toOpen_ne_some_nil _ _)
      | cons m missing =>
        have hlastRest : (rest.map Prod.fst).getLast? = some .enter := by
          cases rest with
          | nil => simp at hlast
          | cons next rest => simpa using hlast
        rcases htrack.pushChar hfirst with ⟨rfl, rfl | hnext⟩ | ⟨hcode, hheld⟩
        · simp
        · simpa using ih hnext htimeRest hlastRest hrest
        · exact absurd hrest
            (hcode.delivered_ne_nil hheld (swallowEnter_of_held hfirst) htimeRest hlastRest)

/-- An idle detector that swallows a stream with characters in it and an Enter at the end has seen
the opening of a frame. -/
theorem isInfix_of_silent (hphase : d.phase = .idle) (htime : d.InTime keys)
    (hlast : (keys.map Prod.fst).getLast? = some .enter) (hsilent : d.delivered keys = [])
    (htyped : typed keys ≠ []) :
    (d.scannerPrefix ++ frameStart).map .char <:+: keys.map Prod.fst := by
  induction keys generalizing d with
  | nil => simp at hlast
  | cons stroke rest ih =>
    obtain ⟨key, now⟩ := stroke
    obtain ⟨hfirst, hrest⟩ := silent_cons hsilent
    have htimeRest := htime.2
    cases key with
    | enter =>
      rw [push_enter_of_nothing htime.1] at hfirst hrest htimeRest
      have hnext : (d.pushEnter now).1.phase = .idle ∧
          (d.pushEnter now).1.scannerPrefix = d.scannerPrefix := by
        simp only [ScanDetector.pushEnter, hphase] at hfirst ⊢
        split <;> simp [hphase]
      have hlastRest : (rest.map Prod.fst).getLast? = some .enter := by
        cases rest with
        | nil => simp at htyped
        | cons next rest => simpa using hlast
      have hinside := ih hnext.1 htimeRest hlastRest hrest (by simpa using htyped)
      rw [hnext.2] at hinside
      exact hinside.trans (List.suffix_cons _ _).isInfix
    | char c =>
      rw [push_char_of_nothing htime.1] at hfirst hrest htimeRest
      have hlastRest : (rest.map Prod.fst).getLast? = some .enter := by
        cases rest with
        | nil => simp at hlast
        | cons next rest => simpa using hlast
      rcases pushChar_of_idle hphase hfirst with ⟨missing, hopening, htrack⟩ | ⟨hcode, hheld⟩
      · have hstart := htrack.isPrefix_of_silent htimeRest hlastRest hrest
        rw [hopening]
        exact (List.cons_prefix_cons.mpr ⟨rfl, hstart⟩).isInfix
      · exact absurd hrest
          (hcode.delivered_ne_nil hheld (swallowEnter_of_held hfirst) htimeRest hlastRest)

end Silent

end ScanDetector

end Taskologic.Core
