import Taskologic.Core.Barcode

/-!
# Control codes

A control code is a list of commands in one frame, `--1<command>[/<command>]*--`. `encodeControls`
prints the payload, `parseControls` reads the body the detector found between the frames, and
`chunks` splits a payload that does not fit on the paper into several barcodes.

Scope. Labels, the print menu and the choice of symbology are left out. Numbers printed in a code
are natural numbers; the widths of the source's integers appear where it parses them.
`Control.parseOne` can panic, on a byte split inside a character, so parsing has an `Outcome`.
-/

set_option autoImplicit false
set_option relaxedAutoImplicit false

namespace Taskologic.Core

open Library

/-! ### The vocabulary -/

/-- `FRAME`: opens and closes a frame. -/
def frameText : Text := [frameChar, frameChar]

/-- `JOIN`: separates commands inside a frame. -/
def joinChar : Char := '/'

/-- `TEXT`: introduces free text, which runs to the end of the frame. -/
def textStart : Text := text "V."

/-- A column the way a code names it: by role or by position from the left. -/
inductive ColumnRef where
  | todo
  | paused
  | doing
  | finished
  | index (n : ℕ)
  | last
  deriving DecidableEq, Repr

namespace ColumnRef

/-- The character of a column. -/
def code : ColumnRef → Char
  | todo => 'T'
  | paused => 'P'
  | doing => 'D'
  | finished => 'F'
  | index n => Char.ofNat ('0'.toNat + max 1 (min n 9))
  | last => 'L'

/-- The column of a character, in either case. -/
def fromCode (c : Char) : Option ColumnRef :=
  let upper := c.toUpper
  if upper = 'T' then some todo
  else if upper = 'P' then some paused
  else if upper = 'D' then some doing
  else if upper = 'F' then some finished
  else if 49 ≤ upper.toNat ∧ upper.toNat ≤ 57 then some (index (c.toNat - 48))
  else if upper = 'L' then some last
  else none

end ColumnRef

/-- A unit for plus and minus. -/
inductive TimeUnit where
  | minutes
  | hours
  | days
  | weeks
  | months
  | years
  deriving DecidableEq, Repr

namespace TimeUnit

/-- The letters of a unit. Minutes are the unit nobody has to spell. -/
def code : TimeUnit → Text
  | minutes => []
  | hours => ['H']
  | days => ['D']
  | weeks => ['W']
  | months => ['M', 'O']
  | years => ['Y']

/-- The unit of some letters, in either case. -/
def fromCode (s : Text) : Option TimeUnit :=
  [minutes, hours, days, weeks, months, years].find? (·.code == toAsciiUppercase s)

end TimeUnit

/-- What a command that waits for a value accepts. -/
inductive Value where
  | now
  | today
  | time
  | plus (n : ℕ) (unit : TimeUnit)
  | minus (n : ℕ) (unit : TimeUnit)
  | me
  | clear
  /-- Free text, last in the frame. -/
  | text (t : Text)
  /-- Ends the start date's values: what follows is for the due date. -/
  | split
  deriving DecidableEq, Repr

/-- `Value::encode`. -/
def Value.encode : Value → Text
  | now => ['N']
  | today => ['T', 'D']
  | time => ['T', 'M']
  | plus n unit => 'P' :: decimal n ++ unit.code
  | minus n unit => 'M' :: decimal n ++ unit.code
  | me => ['M', 'E']
  | clear => ['X']
  | split => ['U']
  | text t => textStart ++ t

/-- A field a `SET` names. -/
inductive Field where
  | title
  | description
  | start
  | due
  | remindStart
  | remindDue
  | assign
  | checklist
  /-- Tick the n-th checklist item. -/
  | checklistItem (n : ℕ)
  | excludeFromStats
  | startAndDue
  deriving DecidableEq, Repr

namespace Field

/-- The letters of a field. -/
def code : Field → Text
  | title => ['T']
  | description => ['D']
  | start => ['S']
  | due => ['U']
  | remindStart => ['R', 'S']
  | remindDue => ['R', 'U']
  | assign => ['A']
  | checklist => ['C']
  | checklistItem n => 'C' :: decimal (max 1 (min n 9))
  | excludeFromStats => ['X']
  | startAndDue => ['B']

/-- The field of some letters. -/
def fromCode : Text → Option Field
  | ['T'] => some title
  | ['D'] => some description
  | ['S'] => some start
  | ['U'] => some due
  | ['R', 'S'] => some remindStart
  | ['R', 'U'] => some remindDue
  | ['A'] => some assign
  | ['C'] => some checklist
  | ['X'] => some excludeFromStats
  | ['B'] => some startAndDue
  | ['C', d] =>
    if 49 ≤ d.toNat ∧ d.toNat ≤ 57 then some (checklistItem (d.toNat - 48)) else none
  | _ => none

end Field

/-- Which slip a print override asks for. -/
inductive SlipChoice where
  | reminder
  | finish
  | pause
  | combo
  deriving DecidableEq, Repr

namespace SlipChoice

/-- The letter of a slip. -/
def code : SlipChoice → Char
  | reminder => 'R'
  | finish => 'F'
  | pause => 'P'
  | combo => 'C'

/-- The slip of a letter. -/
def fromCode (c : Char) : Option SlipChoice :=
  [reminder, finish, pause, combo].find? (·.code == c)

end SlipChoice

/-- A key with no character of its own. -/
inductive NamedKey where
  | up
  | down
  | left
  | right
  | esc
  | enter
  | tab
  | backTab
  /-- F1 to F12. -/
  | f (n : ℕ)
  deriving DecidableEq, Repr

namespace NamedKey

/-- The letters of a key. -/
def code : NamedKey → Text
  | up => ['U']
  | down => ['D']
  | left => ['L']
  | right => ['R']
  | esc => ['E']
  | enter => ['N']
  | tab => ['T']
  | backTab => ['B']
  | f n => 'F' :: decimal n

/-- The key of some letters. -/
def fromCode : Text → Option NamedKey
  | ['U'] => some up
  | ['D'] => some down
  | ['L'] => some left
  | ['R'] => some right
  | ['E'] => some esc
  | ['N'] => some enter
  | ['T'] => some tab
  | ['B'] => some backTab
  | 'F' :: digits =>
    match parseUnsigned 8 digits with
    | some n => if 1 ≤ n ∧ n ≤ 12 then some (f n) else none
    | none => none
  | _ => none

end NamedKey

/-- One command of a frame. Values are commands too, syntactically. -/
inductive Control where
  | moveLeft
  | moveRight
  | moveUp
  | moveDown
  | moveTop
  | moveBottom
  /-- None asks on screen which column. -/
  | moveTo (column : Option ColumnRef)
  | delete
  | print (slip : SlipChoice)
  | assignMe
  | unassignMe
  | toggleAssign
  | set (field : Field)
  /-- Opens the next scanned task, or the one named. -/
  | show (id : Option ShortId)
  | edit
  | selected
  | sticky
  | key (c : Char)
  | named (key : NamedKey)
  | namedTimes (key : NamedKey) (times : ℕ)
  | dashboard
  | nextBoard
  | prevBoard
  | search (archive : Bool)
  | ping
  | undo
  | insert
  | replace
  | value (v : Value)
  | showBoard (id : ShortId)
  | analytics (id : ShortId)
  | startProgram (id : ShortId)
  | startProgramNow (id : ShortId)
  | newFromTemplate (id : ShortId) (column : ColumnRef)
  | newFromTemplateAsk (id : ShortId) (column : ColumnRef)
  deriving DecidableEq, Repr

/-- Why a body is not a list of commands. -/
inductive ControlError where
  | empty
  | unknownCommand (token : Text)
  | textNotLast
  deriving DecidableEq, Repr

/-! ### Printing -/

/-- `Control::encode`: the command as it sits in a frame, without the frame. -/
def Control.encode : Control → Text
  | moveLeft => text "ML"
  | moveRight => text "MR"
  | moveUp => text "MU"
  | moveDown => text "MD"
  | moveTop => text "MT"
  | moveBottom => text "MB"
  | moveTo none => text "MC"
  | moveTo (some column) => text "MC" ++ [column.code]
  | delete => text "DEL"
  | print slip => ['P', slip.code]
  | assignMe => text "AM"
  | unassignMe => text "AU"
  | toggleAssign => text "AT"
  | set field => 'S' :: field.code
  | .show none => text "SH"
  | .show (some id) => text "SH" ++ id.asStr
  | selected => text "SEL"
  | edit => text "ED"
  | sticky => text "STK"
  | key c => ['K', c]
  | named k => 'X' :: k.code
  | namedTimes k times => 'X' :: k.code ++ decimal times
  | dashboard => text "GD"
  | nextBoard => text "GN"
  | prevBoard => text "GP"
  | search false => text "Q"
  | search true => text "QA"
  | ping => text "PING"
  | undo => text "UNDO"
  | insert => text "I"
  | replace => text "R"
  | value v => v.encode
  | showBoard id => text "GB" ++ id.asStr
  | analytics id => text "GA" ++ id.asStr
  | startProgram id => text "RP" ++ id.asStr
  | startProgramNow id => text "RN" ++ id.asStr
  | newFromTemplate id column => text "NT" ++ id.asStr ++ [column.code]
  | newFromTemplateAsk id column => text "NA" ++ id.asStr ++ [column.code]

/-- The commands joined, as they sit between the frames. -/
def encodeBody (commands : List Control) : Text :=
  [joinChar].intercalate (commands.map Control.encode)

/-- The payload with this body: frame, version, body, frame. -/
def framed (body : Text) : Text := frameText ++ version1 :: body ++ frameText

/-- `control::encode`: the whole printed payload for these commands. -/
def encodeControls (commands : List Control) : Text := framed (encodeBody commands)

/-! ### Parsing -/

/-- The commands that are a fixed word. -/
def fixedCommands : List (Text × Control) :=
  [(text "ML", .moveLeft), (text "MR", .moveRight), (text "MU", .moveUp), (text "MD", .moveDown),
    (text "MT", .moveTop), (text "MB", .moveBottom), (text "MC", .moveTo none),
    (text "DEL", .delete), (text "AM", .assignMe), (text "AU", .unassignMe),
    (text "AT", .toggleAssign), (text "SH", .show none), (text "SEL", .selected),
    (text "ED", .edit), (text "STK", .sticky), (text "GD", .dashboard), (text "GN", .nextBoard),
    (text "GP", .prevBoard), (text "Q", .search false), (text "QA", .search true),
    (text "PING", .ping), (text "UNDO", .undo), (text "I", .insert), (text "R", .replace),
    (text "N", .value .now), (text "TD", .value .today), (text "TM", .value .time),
    (text "ME", .value .me), (text "X", .value .clear), (text "U", .value .split)]

/-- `P2H`, `M30`, `P1MO`: a sign, digits, a unit code. -/
def parseOffset (t : Text) : Option Control := do
  let sign := t.take 1
  let rest := t.drop 1
  let digits := rest.takeWhile Char.isDigit
  let n ← parseUnsigned 32 digits
  let unit ← TimeUnit.fromCode (rest.drop digits.length)
  some (.value (if sign = ['P'] then .plus n unit else .minus n unit))

/-- The closure `id_after` of `parse_one`: a short id behind a fixed start. -/
def idAfter (token start t : Text) : Outcome ControlError ShortId :=
  (Outcome.okOr (.unknownCommand token) (stripStart start t)).bind fun rest ↦
    match ShortId.parse rest with
    | .ok id => .ok id
    | .error _ => .err (.unknownCommand token)

/-- `T3`: a key letter and how many times. -/
def parseNamedTimes (token rest : Text) : Outcome ControlError Control :=
  let bad : ControlError := .unknownCommand token
  (Outcome.okOr bad ((parseUnsigned 8 (rest.drop 1)).filter fun n ↦ 1 ≤ n ∧ n ≤ 99)).bind fun n ↦
    (Outcome.okOr bad (NamedKey.fromCode (rest.take 1))).bind fun key ↦ .ok (.namedTimes key n)

/-- The arm of the template codes: a short id, then a column. Splitting off the last byte panics
when it lies inside a character. -/
def parseTemplate (token t : Text) (ask : Bool) : Outcome ControlError Control :=
  let bad : ControlError := .unknownCommand token
  let rest := t.drop 2
  match rest.getLast? with
  | none => .err bad
  | some column =>
    if column.utf8Size ≠ 1 then .panicked
    else
      match ShortId.parse rest.dropLast with
      | .error _ => .err bad
      | .ok id =>
        (Outcome.okOr bad (ColumnRef.fromCode column)).bind fun column ↦
          .ok (if ask then .newFromTemplateAsk id column else .newFromTemplate id column)

/-- The arms of `parse_one` behind the fixed words: commands with an argument attached. `token` is
what was typed and `t` its uppercase form. -/
def parseArgument (token t : Text) : Outcome ControlError Control :=
  let bad : ControlError := .unknownCommand token
  match t with
  | [] => .err bad
  | [_] => .err bad
  | first :: second :: more =>
    if first = 'M' ∧ second = 'C' ∧ utf8Len t = 3 then
      match more with
      | [] => .panicked
      | c :: _ =>
        (Outcome.okOr bad (ColumnRef.fromCode c)).bind fun column ↦ .ok (.moveTo (some column))
    else if first = 'P' ∧ utf8Len t = 2 ∧ (SlipChoice.fromCode second).isSome then
      (Outcome.okOr bad (SlipChoice.fromCode second)).bind fun slip ↦ .ok (.print slip)
    else if (first = 'P' ∨ first = 'M') ∧ second.isDigit then Outcome.okOr bad (parseOffset t)
    else if first = 'S' ∧ utf8Len t ≤ 3 then
      (Outcome.okOr bad (Field.fromCode (second :: more))).bind fun field ↦ .ok (.set field)
    else if first = 'S' ∧ second = 'H' then
      (idAfter token (text "SH") t).bind fun id ↦ .ok (.show (some id))
    else if first = 'X' then
      match NamedKey.fromCode (second :: more) with
      | some key => .ok (.named key)
      | none =>
        if second.utf8Size = 1 then parseNamedTimes token (second :: more) else .err bad
    else if first = 'G' ∧ second = 'B' then
      (idAfter token (text "GB") t).bind fun id ↦ .ok (.showBoard id)
    else if first = 'G' ∧ second = 'A' then
      (idAfter token (text "GA") t).bind fun id ↦ .ok (.analytics id)
    else if first = 'R' ∧ second = 'P' then
      (idAfter token (text "RP") t).bind fun id ↦ .ok (.startProgram id)
    else if first = 'R' ∧ second = 'N' then
      (idAfter token (text "RN") t).bind fun id ↦ .ok (.startProgramNow id)
    else if first = 'N' ∧ (second = 'T' ∨ second = 'A') then
      parseTemplate token t (decide (second = 'A'))
    else .err bad

/-- A key command: the letter K in either case and one character. -/
def keyToken : Text → Option Char
  | [k, c] => if k = 'K' ∨ k = 'k' then some c else none
  | _ => none

/-- `Control::parse_one`. Free text and keys keep their case; everything else is compared
uppercased. -/
def Control.parseOne (token : Text) : Outcome ControlError Control :=
  let t := toAsciiUppercase token
  match stripStart textStart token with
  | some rest => .ok (.value (.text rest))
  | none =>
    match keyToken token with
    | some c => .ok (.key c)
    | none =>
      match fixedCommands.lookup t with
      | some command => .ok command
      | none => parseArgument token t

/-- The loop of `control::parse`: `out` is what was read so far and `rest` what is left of the body. -/
def parseControlsLoop (out : List Control) (rest : Text) : Outcome ControlError (List Control) :=
  if textStart.isPrefixOf rest then
    (Control.parseOne rest).bind fun command ↦ .ok (out ++ [command])
  else
    match _hfind : rest.idxOf? joinChar with
    | some i =>
      (Control.parseOne (rest.take i)).bind fun command ↦
        parseControlsLoop (out ++ [command]) (rest.drop (i + 1))
    | none => (Control.parseOne rest).bind fun command ↦ .ok (out ++ [command])
termination_by rest.length
decreasing_by
  obtain ⟨hi, -⟩ := List.idxOf?_eq_some_iff.mp _hfind
  simp only [List.length_drop]
  omega

/-- `control::parse`: the commands of a frame body, what sits between `--1` and `--`. -/
def parseControls (body : Text) : Outcome ControlError (List Control) :=
  if (trim body).isEmpty then .err .empty else parseControlsLoop [] body

/-! ### Splitting -/

/-- Modules a CODE128 of this many characters takes: 11 per character, plus start, check and a 13
module stop. -/
def code128Modules (chars : ℕ) : ℕ := (chars + 2) * 11 + 13

/-- The loop of `slice::chunks`: pieces of `size` elements, the last one shorter. -/
def chunksLoop {α : Type*} (size : ℕ) : ℕ → List α → List (List α)
  | 0, _ => []
  | _ + 1, [] => []
  | fuel + 1, s => s.take size :: chunksLoop size fuel (s.drop size)

/-- `slice::chunks`, which wants a positive size. Every piece takes an element, so the length of the
list bounds the number of pieces. -/
def sliceChunks {α : Type*} (size : ℕ) (s : List α) : List (List α) := chunksLoop size s.length s

/-- The most characters that fit on paper `dots` wide at one dot per module, or 1. -/
def maxChunk (chars dots : ℕ) : ℕ :=
  ((List.range' 1 chars).reverse.find? fun n ↦ code128Modules n ≤ dots).getD 1

/-- `chunks`: splits a payload that does not fit even in CODE128 at one dot per module into pieces
that do, for one barcode each. A payload that fits comes back whole. -/
def chunks (payload : Text) (dots : ℕ) : List Text :=
  let largest := maxChunk payload.length dots
  if payload.length ≤ largest then [payload] else sliceChunks (max largest 3) payload

end Taskologic.Core
