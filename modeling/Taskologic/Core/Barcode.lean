import Taskologic.Core.Ids
import Taskologic.Library.Outcome

/-!
# Barcode payloads and the scan detector

The payload of a task code is `..1<action><taskid><check>`, eleven characters under the magic, with
an ISO 7064 MOD 37,36 check character. `ScanPayload.encode` and `ScanPayload.parse` write and read
it.

`ScanDetector` watches a keystroke stream for payloads and for control frames, which `--1` opens and
`--` closes. `ScanDetector.push` feeds it one key; `ScanDetector.expire` drops what has gone stale.
`ScanDetector.pushAll` feeds a whole stream and collects the answers, one per key.

Scope. Times are milliseconds on the caller's clock, as natural numbers. The duration of the last
scan is kept because the functions write it; nothing reads it.
-/

set_option autoImplicit false
set_option relaxedAutoImplicit false

namespace Taskologic.Core

/-! ### Payload constants -/

/-- `MAGIC_CHAR`: the character the magic is made of. -/
def magicChar : Char := '.'

/-- `MAGIC`: the two characters in front of every task code. -/
def magic : Text := [magicChar, magicChar]

/-- `FRAME_CHAR`: the character a control frame is made of, twice to open, twice to close. -/
def frameChar : Char := '-'

/-- `VERSION_1`: the only format version so far, of payloads and of frames. -/
def version1 : Char := '1'

/-- `MAGIC_LEN`. -/
def magicLen : ℕ := 2

/-- `V1_LEN`: magic 2, version 1, action 1, short id 6, check 1. -/
def v1Len : ℕ := magicLen + 1 + 1 + ShortId.len + 1

/-- Total payload length for a version character, if it is known. -/
def payloadLen (version : Char) : Option ℕ := if version = version1 then some v1Len else none

/-! ### Scan actions -/

/-- What a scanned barcode asks for. -/
inductive ScanAction where
  | startPause
  | finish
  | yes
  | no
  | choice (n : ℕ)
  | finishChildren
  deriving DecidableEq, Repr

namespace ScanAction

/-- `MAX_CHOICES`: the most answers a choice question can offer, one digit each. -/
def maxChoices : ℕ := 8

/-- The character of an action. -/
def code : ScanAction → Char
  | startPause => 'S'
  | finish => 'F'
  | yes => 'Y'
  | no => 'N'
  | choice n => Char.ofNat ('0'.toNat + max 1 (min n maxChoices))
  | finishChildren => 'C'

/-- The action of a character, in either case. -/
def fromCode (c : Char) : Option ScanAction :=
  let upper := c.toUpper
  if upper = 'S' then some startPause
  else if upper = 'F' then some finish
  else if upper = 'Y' then some yes
  else if upper = 'N' then some no
  else if 49 ≤ upper.toNat ∧ upper.toNat ≤ 56 then some (choice (c.toNat - 48))
  else if upper = 'C' then some finishChildren
  else none

end ScanAction

/-! ### The check character -/

/-- `MOD` of the checksum. -/
def checkMod : ℕ := 36

/-- The ISO 7064 MOD 37,36 checksum of digit values. -/
def mod3736Checksum (values : List (Fin 36)) : ℕ :=
  values.foldl (fun check v ↦
    ((if check = 0 then checkMod else check) * 2 % (checkMod + 1) + v.val) % checkMod)
    (checkMod / 2)

/-- Check character over a base36 string, or none if it has anything outside base36. -/
def checkChar (body : Text) : Option Char := do
  let values ← body.mapM base36Value
  let cs := mod3736Checksum values
  let base := if cs = 0 then checkMod else cs
  base36Char ((1 + checkMod - base * 2 % (checkMod + 1)) % checkMod)

/-- Whether the last character is the right check character for everything before it. -/
def verifyCheck (withCheck : Text) : Bool :=
  match withCheck.mapM base36Value with
  | some values => !values.isEmpty && mod3736Checksum values == 1
  | none => false

/-! ### Payloads -/

/-- Why a text is not a payload. -/
inductive ScanParseError where
  | noMagic
  | unknownVersion (c : Char)
  | truncated (expected got : ℕ)
  | tooLong (expected got : ℕ)
  | badAction (c : Char)
  | badChar (c : Char)
  | badCheck
  deriving DecidableEq, Repr

/-- A decoded barcode. -/
structure ScanPayload where
  action : ScanAction
  shortId : ShortId
  deriving DecidableEq, Repr

namespace ScanPayload

/-- Version, action and short id, without magic or check character. -/
def body (payload : ScanPayload) : Text :=
  version1 :: payload.action.code :: payload.shortId.asStr

/-- The full payload string that goes into a barcode. The source expects the check character to
exist because the body is base36. -/
def encode (payload : ScanPayload) : Option Text :=
  (checkChar payload.body).map fun check ↦ magic ++ payload.body ++ [check]

/-- Parses a complete payload. -/
def parse (raw : Text) : Except ScanParseError ScanPayload :=
  let chars := toAsciiUppercase (trim raw)
  if ¬ (magicLen ≤ chars.length ∧ (chars.take magicLen).all (· == magicChar)) then .error .noMagic
  else
    match chars[magicLen]? with
    | none => .error (.truncated v1Len chars.length)
    | some version =>
      match payloadLen version with
      | none => .error (.unknownVersion version)
      | some expected =>
        if chars.length < expected then .error (.truncated expected chars.length)
        else if chars.length > expected then .error (.tooLong expected chars.length)
        else
          match (chars.drop magicLen).find? fun c ↦ (base36Value c).isNone with
          | some c => .error (.badChar c)
          | none =>
            if ¬ verifyCheck (chars.drop magicLen) then .error .badCheck
            else
              let actionChar := chars.getD (magicLen + 1) '0'
              match ScanAction.fromCode actionChar with
              | none => .error (.badAction actionChar)
              | some action =>
                match ShortId.parse ((chars.drop (magicLen + 2)).take ShortId.len) with
                | .error (.badChar c) => .error (.badChar c)
                | .error (.wrongLength _) => .error (.truncated expected chars.length)
                | .ok shortId => .ok ⟨action, shortId⟩

end ScanPayload

/-! ### Keys and answers -/

/-- One keystroke as seen by the detector. -/
inductive ScanKey where
  | char (c : Char)
  | enter
  deriving DecidableEq, Repr

/-- What the client should do with a keystroke after the detector saw it. -/
inductive Feed where
  /-- Hand these keys to normal key handling. -/
  | pass (keys : List ScanKey)
  /-- Swallowed into the scan buffer. -/
  | held
  /-- A complete payload arrived, or what should have been one. -/
  | scan (result : Except ScanParseError ScanPayload)
  /-- A complete control frame arrived: its body, between `--1` and `--`. -/
  | frame (body : Text)
  deriving DecidableEq, Repr

/-- What `ScanDetector.expire` found to be stale. -/
inductive Expired where
  | nothing
  | keys (keys : List ScanKey)
  | scan
  | frame
  deriving DecidableEq, Repr

/-- How far the detector is. -/
inductive Phase where
  | idle
  /-- Matched this many characters of the scanner's prefix. -/
  | inPrefix (n : ℕ)
  | prefixDone
  | halfMagic
  | version
  | body (total : ℕ)
  | halfFrame
  | frameOpen
  /-- Inside a frame; `dash` is whether the last character was the frame character. -/
  | frame (dash : Bool)
  deriving DecidableEq, Repr

/-! ### The detector -/

/-- Watches a keystroke stream for barcode payloads and control frames. -/
structure ScanDetector where
  /-- What the scanner is programmed to send before the barcode's contents. -/
  scannerPrefix : Text
  enterTerminates : Bool
  timeoutMs : ℕ
  /-- For an open control frame, which spans scans; 0 is never. -/
  frameTimeoutMs : ℕ
  phase : Phase
  held : Text
  body : Text
  since : Option ℕ
  swallowEnter : Bool
  lastScanMs : Option ℕ
  deriving DecidableEq, Repr

namespace ScanDetector

/-- `DEFAULT_TIMEOUT_MS`. -/
def defaultTimeoutMs : ℕ := 2000

/-- `DEFAULT_FRAME_TIMEOUT_MS`. -/
def defaultFrameTimeoutMs : ℕ := 20000

/-- `ScanDetector::new`. -/
def new : ScanDetector where
  scannerPrefix := []
  enterTerminates := false
  timeoutMs := defaultTimeoutMs
  frameTimeoutMs := defaultFrameTimeoutMs
  phase := .idle
  held := []
  body := []
  since := none
  swallowEnter := false
  lastScanMs := none

/-- `with_prefix`. -/
def withPrefix (d : ScanDetector) (scannerPrefix : Text) : ScanDetector :=
  { d with scannerPrefix }

/-- `with_enter_terminates`. -/
def withEnterTerminates (d : ScanDetector) (yes : Bool) : ScanDetector :=
  { d with enterTerminates := yes }

/-- `with_timeout_ms`. -/
def withTimeoutMs (d : ScanDetector) (ms : ℕ) : ScanDetector := { d with timeoutMs := ms }

/-- `with_frame_timeout_ms`. -/
def withFrameTimeoutMs (d : ScanDetector) (ms : ℕ) : ScanDetector := { d with frameTimeoutMs := ms }

/-- Whether nothing is in progress. -/
def isIdle (d : ScanDetector) : Bool := d.phase == .idle

/-- Drops whatever is in progress. -/
def reset (d : ScanDetector) : ScanDetector :=
  { d with phase := .idle, held := [], body := [], since := none }

/-- `cancel`: Esc on the keyboard. -/
def cancel (d : ScanDetector) : ScanDetector := d.reset

/-- Drops a buffer that has gone stale. A partial match hands its keys back. -/
def expire (d : ScanDetector) (now : ℕ) : ScanDetector × Expired :=
  match d.since with
  | none => (d, .nothing)
  | some t =>
    let age := now - t
    match d.phase with
    | .idle => (d, .nothing)
    | .frame _ =>
      if d.frameTimeoutMs = 0 ∨ age ≤ d.frameTimeoutMs then (d, .nothing) else (d.reset, .frame)
    | .body _ | .version =>
      if age ≤ d.timeoutMs then (d, .nothing) else (d.reset, .scan)
    | _ =>
      if age ≤ d.timeoutMs then (d, .nothing) else (d.reset, .keys (d.held.map .char))

/-- The first character of a match, or a key to pass through. -/
def start (d : ScanDetector) (c : Char) (now : ℕ) : ScanDetector × Feed :=
  match d.scannerPrefix with
  | [] =>
    if c = magicChar then
      ({ d with held := d.held ++ [c], phase := .halfMagic, since := some now }, .held)
    else if c = frameChar then
      ({ d with held := d.held ++ [c], phase := .halfFrame, since := some now }, .held)
    else (d, .pass [.char c])
  | first :: more =>
    if first = c then
      ({ d with
        held := d.held ++ [c]
        phase := if more.isEmpty then .prefixDone else .inPrefix 1
        since := some now }, .held)
    else (d, .pass [.char c])

/-- A character broke a partial match: everything held goes back to normal handling, unless the
breaking character itself starts a new match. -/
def releaseWith (d : ScanDetector) (c : Char) (now : ℕ) : ScanDetector × Feed :=
  let out : List ScanKey := d.held.map .char
  match d.reset.start c now with
  | (d, .held) => (d, if out.isEmpty then .held else .pass out)
  | (d, .pass keys) => (d, .pass (out ++ keys))
  | done => done

/-- The end of a task code. -/
def finish (d : ScanDetector) (now : ℕ) : ScanDetector × Feed :=
  let raw := magic ++ d.body
  ({ d.reset with
    lastScanMs := d.since.map (now - ·)
    swallowEnter := d.enterTerminates }, .scan (ScanPayload.parse raw))

/-- The end of a control frame. -/
def finishFrame (d : ScanDetector) (now : ℕ) : ScanDetector × Feed :=
  ({ d.reset with
    lastScanMs := d.since.map (now - ·)
    swallowEnter := d.enterTerminates }, .frame d.body)

/-- Holds a character back and moves on. -/
def hold (d : ScanDetector) (c : Char) (phase : Phase) : ScanDetector × Feed :=
  ({ d with held := d.held ++ [c], phase }, .held)

/-- A character of a task code, after the magic. -/
def pushVersion (d : ScanDetector) (c : Char) : ScanDetector × Feed :=
  match payloadLen c with
  | some total => ({ d with body := d.body ++ [c], phase := .body total }, .held)
  | none => (d.reset, .scan (.error (.unknownVersion c)))

/-- A character of a task code, after the version. -/
def pushBody (d : ScanDetector) (total : ℕ) (c : Char) (now : ℕ) : ScanDetector × Feed :=
  let d := { d with body := d.body ++ [c.toUpper] }
  if magicLen + d.body.length ≥ total then d.finish now else (d, .held)

/-- A character inside a control frame. -/
def pushFrame (d : ScanDetector) (dash : Bool) (c : Char) (now : ℕ) : ScanDetector × Feed :=
  let d := { d with since := some now }
  if c = frameChar then
    if dash then d.finishFrame now else ({ d with phase := .frame true }, .held)
  else
    ({ d with
      body := d.body ++ (if dash then [frameChar] else []) ++ [c]
      phase := .frame false }, .held)

/-- A character key. -/
def pushChar (d : ScanDetector) (c : Char) (now : ℕ) : ScanDetector × Feed :=
  let d := { d with swallowEnter := false }
  match d.phase with
  | .idle => d.start c now
  | .inPrefix n =>
    if d.scannerPrefix[n]? = some c then
      d.hold c (if n + 1 = d.scannerPrefix.length then .prefixDone else .inPrefix (n + 1))
    else d.releaseWith c now
  | .prefixDone =>
    if c = magicChar then d.hold c .halfMagic
    else if c = frameChar then d.hold c .halfFrame
    else d.releaseWith c now
  | .halfMagic => if c = magicChar then d.hold c .version else d.releaseWith c now
  | .version => d.pushVersion c
  | .body total => d.pushBody total c now
  | .halfFrame => if c = frameChar then d.hold c .frameOpen else d.releaseWith c now
  | .frameOpen =>
    if c = version1 then { d with body := [] }.hold c (.frame false)
    else d.releaseWith c now
  | .frame dash => d.pushFrame dash c now

/-- The Enter key. -/
def pushEnter (d : ScanDetector) (now : ℕ) : ScanDetector × Feed :=
  if d.swallowEnter then ({ d with swallowEnter := false }, .held)
  else
    match d.phase with
    | .idle => (d, .pass [.enter])
    | .body _ => d.finish now
    | .frame _ => ({ d with since := some now }, .held)
    | _ => (d.reset, .pass (d.held.map .char ++ [.enter]))

/-- Keys a stale partial match held go first, as typed. -/
def withStale : Expired → Feed → Feed
  | .keys keys, .pass more => .pass (keys ++ more)
  | .keys keys, .held => .pass keys
  | _, fed => fed

/-- `push`: one key, at a time. -/
def push (d : ScanDetector) (key : ScanKey) (now : ℕ) : ScanDetector × Feed :=
  let (d, stale) := d.expire now
  let (d, fed) := match key with
    | .char c => d.pushChar c now
    | .enter => d.pushEnter now
  (d, withStale stale fed)

/-- A stream of keys, each with its time: the detector after it, and one answer per key. -/
def pushAll (d : ScanDetector) : List (ScanKey × ℕ) → ScanDetector × List Feed
  | [] => (d, [])
  | (key, now) :: rest =>
    let (d, fed) := d.push key now
    let (d, answers) := d.pushAll rest
    (d, fed :: answers)

end ScanDetector

end Taskologic.Core
