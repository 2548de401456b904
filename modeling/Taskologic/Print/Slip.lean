import Taskologic.Core.Barcode
import Taskologic.Core.Draft
import Taskologic.Core.Moment

/-!
# Print jobs, slips and printers

A `PrintJob` says what to print. A `SlipLayout` says which sections of it reach the paper, in what order and
how they are set, and a `DeviceProfile` is the printer. `DeviceProfile.columns` is how many characters a line
of its paper holds.

Scope. A profile's queue, rotation and raw flag, and the fields of a job that reach no paper, are left out.
-/

set_option autoImplicit false
set_option relaxedAutoImplicit false

namespace Taskologic.Print

open Core

/-! ### Jobs -/

inductive Symbology where
  | code39
  | code128
  | qr
  | dataMatrix
  deriving DecidableEq, Repr

structure Barcode where
  action : ScanAction
  payload : Text
  symbology : Symbology
  /-- What the line above the code says, when the action's own wording would be a lie. -/
  label : Option Text
  narrow : Bool
  deriving DecidableEq, Repr

structure DepLine where
  shortId : ShortId
  title : Text
  done : Bool
  deriving DecidableEq, Repr

structure SheetEntry where
  shortId : ShortId
  title : Text
  barcode : Barcode
  deriving DecidableEq, Repr

structure CodeLine where
  label : Text
  payload : Text
  symbology : Symbology
  narrow : Bool
  deriving DecidableEq, Repr

/-- `CodeLine::barcode`. -/
def CodeLine.barcode (line : CodeLine) : Barcode where
  action := .startPause
  payload := line.payload
  symbology := line.symbology
  label := some line.label
  narrow := line.narrow

inductive PrintJobKind where
  | task
  | reminder
  | sheet
  | codes
  deriving DecidableEq, Repr

structure PrintJob where
  kind : PrintJobKind
  shortId : ShortId
  boardName : Text
  title : Text
  description : Option Text
  startAt : Option Instant
  dueAt : Option Instant
  dependencies : Option (List DepLine)
  createdBy : Option Text
  assignees : Option (List Text)
  checklist : List ChecklistItem
  barcodes : List Barcode
  sheet : List SheetEntry
  codes : List CodeLine
  timezone : Zone
  createdAt : Instant

/-! ### Layouts -/

/-- One part of a slip. -/
inductive SlipSection where
  | custom
  | boardTitle
  | taskTitle
  | barcodeStart
  | description
  | checklist
  | startDate
  | dueDate
  | creator
  | assignee
  | dependencies
  | sheet
  | barcodeFinish
  | timestamp
  deriving DecidableEq, Repr

structure SlipRow where
  section_ : SlipSection
  enabled : Bool
  bold : Bool
  large : Bool
  centered : Bool
  /-- The words of a custom section. -/
  text : Text
  deriving DecidableEq, Repr

/-- The sections of a slip, in the order they print. -/
structure SlipLayout where
  rows : List SlipRow
  deriving DecidableEq, Repr

/-- `SlipLayout::task`: what a task receipt looks like out of the box. -/
def SlipLayout.task : SlipLayout where
  rows :=
    [ ⟨.custom, false, false, false, true, text "Taskologic"⟩,
      ⟨.boardTitle, true, true, false, true, []⟩,
      ⟨.taskTitle, true, true, true, false, []⟩,
      ⟨.barcodeStart, false, false, false, true, []⟩,
      ⟨.description, true, false, false, false, []⟩,
      ⟨.checklist, true, false, false, false, []⟩,
      ⟨.startDate, false, false, false, true, []⟩,
      ⟨.dueDate, true, false, true, true, []⟩,
      ⟨.creator, false, false, false, false, []⟩,
      ⟨.assignee, false, false, false, false, []⟩,
      ⟨.dependencies, true, false, true, true, []⟩,
      ⟨.sheet, true, false, false, true, []⟩,
      ⟨.barcodeFinish, true, false, false, true, []⟩,
      ⟨.timestamp, true, true, false, true, []⟩ ]

/-- `SlipLayout::reminder`: a receipt whose start code and start date are on, and whose finish code is off. -/
def SlipLayout.reminder : SlipLayout where
  rows := SlipLayout.task.rows.map fun row ↦
    match row.section_ with
    | .barcodeStart | .startDate => { row with enabled := true }
    | .barcodeFinish => { row with enabled := false }
    | _ => row

structure SlipSet where
  task : SlipLayout
  reminder : SlipLayout
  deriving DecidableEq, Repr

/-- `SlipSet::for_kind`. -/
def SlipSet.forKind (set : SlipSet) : PrintJobKind → SlipLayout
  | .task | .sheet | .codes => set.task
  | .reminder => set.reminder

/-! ### Printers -/

/-- Dots per millimetre on a 203 dpi head. -/
def dotsPerMm : ℕ := 8

/-- Dots one character of the printer's default font takes. -/
def dotsPerChar : ℕ := 12

def minCustomMm : ℕ := 20

def maxCustomMm : ℕ := 120

/-- How far the 8x8 font is blown up for printing. -/
def bitmapScale : ℕ := 2

/-- Dots one bitmap character takes. -/
def bitmapCharDots : ℕ := 8 * bitmapScale

/-- A millimetre of slack left at the edge of a drawn slip. -/
def bitmapInsetDots : ℕ := dotsPerMm

/-- How wide the printer can print. A custom width is in millimetres. -/
inductive PaperWidth where
  | mm58
  | mm80
  | custom (mm : ℕ)
  deriving DecidableEq, Repr

/-- Printable width in millimetres, clamped to what a printer could do. -/
def PaperWidth.printableMm : PaperWidth → ℕ
  | mm58 => 48
  | mm80 => 72
  | custom mm => max minCustomMm (min mm maxCustomMm)

def PaperWidth.dots (paper : PaperWidth) : ℕ := paper.printableMm * dotsPerMm

inductive OutputMode where
  | escPos
  | bitmap
  | text
  deriving DecidableEq, Repr

/-- Dots across the paper this mode draws on. -/
def OutputMode.dots (paper : PaperWidth) : OutputMode → ℕ
  | escPos | text => paper.dots
  | bitmap => paper.dots - bitmapInsetDots

/-- Characters per line in this mode. -/
def OutputMode.columns (paper : PaperWidth) : OutputMode → ℕ
  | escPos | text => paper.dots / dotsPerChar
  | bitmap => OutputMode.dots paper bitmap / bitmapCharDots

/-- What character set the printer expects on the wire. -/
inductive Codepage where
  | utf8
  | cp437
  | cp850
  | cp858
  | wpc1252
  deriving DecidableEq, Repr

structure DeviceProfile where
  paper : PaperWidth
  codepage : Codepage
  autoCutter : Bool
  output : OutputMode
  slips : SlipSet
  nativeSymbologies : List Symbology
  wideBarcodes : Bool
  deriving DecidableEq, Repr

namespace DeviceProfile

/-- Dots across, which depends on the mode as well as the paper. -/
def dots (profile : DeviceProfile) : ℕ := profile.output.dots profile.paper

/-- Characters per line. -/
def columns (profile : DeviceProfile) : ℕ := profile.output.columns profile.paper

/-- Dots per module for a code of `modules` bars and spaces with `quiet` modules of white on either side:
`fixed`, or as many as fill the paper, never below one and never above `most`. -/
def barModuleDots (profile : DeviceProfile) (modules quiet fixed : ℕ) (most : Option ℕ) : ℕ :=
  if profile.wideBarcodes then
    let across := modules + 2 * quiet
    let filling := max 1 (profile.dots / max across 1)
    (most.map (min filling)).getD filling
  else fixed

def supportsNatively (profile : DeviceProfile) (symbology : Symbology) : Bool :=
  symbology != .dataMatrix && profile.nativeSymbologies.contains symbology

/-- The narrowest paper holds nine characters. -/
theorem nine_le_columns (profile : DeviceProfile) : 9 ≤ profile.columns := by
  have hmm : 20 ≤ profile.paper.printableMm := by
    cases profile.paper with
    | mm58 | mm80 => decide
    | custom mm => exact le_max_left _ _
  unfold columns OutputMode.columns PaperWidth.dots OutputMode.dots PaperWidth.dots
  cases profile.output <;>
    · simp only [dotsPerMm, dotsPerChar, bitmapInsetDots, bitmapCharDots, bitmapScale]
      omega

end DeviceProfile

end Taskologic.Print
