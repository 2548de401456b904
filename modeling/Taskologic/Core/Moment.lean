import Taskologic.Core.Text

/-!
# Moments, offsets and zones

A moment is counted in seconds since the epoch, within the range the calendar can hold. An `Offset`
is so many minutes, hours or days, and `Offset.after` is the moment so long after another one, if
the calendar reaches that far. A `Zone` is what the zone database answers for one zone: the wall
clock at a moment, and the moments a wall clock time can mean.

Scope. Fractions of a second are not kept. The zone database is not part of the program; `Zone` is
its interface.
-/

set_option autoImplicit false
set_option relaxedAutoImplicit false

namespace Taskologic.Core

/-- A moment, in seconds since the epoch. -/
abbrev Instant := ℤ

/-- A day of the calendar, counted from the epoch. -/
abbrev Day := ℤ

/-- A wall clock time, in seconds since the epoch as the wall clock shows it. -/
abbrev WallClock := ℤ

/-- A time of day, in seconds since midnight. -/
abbrev TimeOfDay := Fin 86400

/-- The first and the last day the calendar holds. -/
def firstDay : Day := -96465292

def lastDay : Day := 95026236

/-- `DateTime::checked_add_signed`. -/
def checkedAdd (moment : Instant) (seconds : ℤ) : Option Instant :=
  let sum := moment + seconds
  if firstDay * 86400 ≤ sum ∧ sum < (lastDay + 1) * 86400 then some sum else none

/-! ### Offsets -/

/-- The unit an `Offset` is counted in. -/
inductive OffsetUnit where
  | minutes
  | hours
  | days
  deriving DecidableEq, Repr

/-- The length of a unit in minutes. -/
def OffsetUnit.inMinutes : OffsetUnit → ℕ
  | minutes => 1
  | hours => 60
  | days => 24 * 60

/-- How far ahead of some moment a date lands. An amount of zero means exactly that moment. -/
structure Offset where
  amount : ℕ
  unit : OffsetUnit
  deriving DecidableEq, Repr

/-- `MAX_OFFSET_AMOUNT`: the largest offset anything may carry. -/
def maxOffsetAmount : ℕ := 100000

/-- The date this offset produces, or nothing if it overflows. The length itself always fits: an
amount has 32 bits. -/
def Offset.after (offset : Offset) (moment : Instant) : Option Instant :=
  checkedAdd moment (offset.amount * offset.unit.inMinutes * 60)

/-! ### Zones -/

/-- The name of a zone. -/
structure Tz where
  name : Text
  deriving DecidableEq, Repr

/-- What a wall clock time means in a zone: one moment, two where the clock was put back, none where
it was put forward. -/
inductive LocalResult where
  | single (moment : Instant)
  | ambiguous (earliest latest : Instant)
  | none
  deriving DecidableEq, Repr

/-- `LocalResult::earliest`. -/
def LocalResult.earliest : LocalResult → Option Instant
  | single moment => some moment
  | ambiguous earliest _ => some earliest
  | none => Option.none

/-- What the zone database knows about a zone. -/
structure Zone where
  toLocal : Instant → WallClock
  fromLocal : WallClock → LocalResult

/-- UTC: the wall clock shows the moment. -/
def Zone.utc : Zone := ⟨id, .single⟩

/-- The moment of a wall clock time. Where it does not exist, an hour later. -/
def localToUtc (zone : Zone) (naive : WallClock) : Instant :=
  match zone.fromLocal naive with
  | .single moment => moment
  | .ambiguous earliest _ => earliest
  | .none => (zone.fromLocal (naive + 3600)).earliest.getD naive

/-- `days` days on from the moment `now`, at `time` in the zone: one is tomorrow. -/
def daysLaterAt (now : Instant) (days : ℕ) (time : TimeOfDay) (zone : Zone) : Option Instant :=
  let date := zone.toLocal now / 86400 + days
  if date ≤ lastDay then some (localToUtc zone (date * 86400 + time.val)) else none

end Taskologic.Core
