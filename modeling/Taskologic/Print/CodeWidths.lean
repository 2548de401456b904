import Taskologic.Core.Stitching
import Taskologic.Print.Render

/-!
# How wide a code is

The core decides from numbers of characters which codes fit on a paper (`fits`, `symbologyFor`, `chunks`), and the
back ends draw the codes (`drawnCode`). The numbers of modules agree, but the core has forgotten the quiet zones, and
the pieces it cuts to fit at one dot per module are drawn with two. `accepted_within_iff` says of every accepted code
when it is drawn within the paper.

Scope. The crates that draw a code are the parameter `encode`; `DrawsBars` says how many modules CODE39 and CODE128
take.
-/

set_option autoImplicit false
set_option relaxedAutoImplicit false

namespace Taskologic.Print

open Core

/-! ### What the core accepts -/

/-- The characters CODE39 can carry. -/
def isCode39Char (c : Char) : Bool :=
  ('0' ≤ c && c ≤ '9') || ('A' ≤ c && c ≤ 'Z') || [' ', '-', '.', '$', '/', '+', '%'].contains c

/-- Keys and free text with other characters print in CODE128 whatever the width. -/
def needsCode128 : Control → Bool
  | .key c => !isCode39Char c
  | .value (.text t) => !t.all isCode39Char
  | _ => false

/-- Modules a CODE39 of this many characters takes: 13 per character including the gap after it, start and stop
characters included. -/
def code39Modules (chars : ℕ) : ℕ := (chars + 2) * 13 - 1

/-- The modules of a code with bars. -/
def barModules (symbology : Symbology) (chars : ℕ) : ℕ :=
  match symbology with
  | .code39 => code39Modules chars
  | _ => code128Modules chars

/-- Whether a payload prints at two dots per module on paper `dots` wide. -/
def fits (chars : ℕ) (symbology : Symbology) (dots : ℕ) : Bool := decide (barModules symbology chars * 2 ≤ dots)

/-- Which symbology a code prints in on paper `dots` wide. -/
def symbologyFor (commands : List Control) (dots : ℕ) : Symbology :=
  let payload := encodeControls commands
  if commands.any needsCode128 || !payload.all isCode39Char then .code128
  else if fits payload.length .code39 dots then .code39
  else .code128

/-- A code that is said to fit on paper `dots` wide. -/
inductive Accepted (dots : ℕ) : Symbology → Text → Prop
  | code39 {payload : Text} (h : fits payload.length .code39 dots = true) : Accepted dots .code39 payload
  | code128 {payload : Text} (h : fits payload.length .code128 dots = true) : Accepted dots .code128 payload
  | chosen {commands : List Control} (h : symbologyFor commands dots = .code39) :
    Accepted dots .code39 (encodeControls commands)
  | piece {payload piece : Text} (h : piece ∈ chunks payload dots) : Accepted dots .code128 piece

/-! ### What is drawn -/

/-- The matrix of a code as the back ends draw it, quiet zone and scaling included. -/
def drawnCode (profile : DeviceProfile) (narrow : Bool) (m : BitMatrix) : BitMatrix :=
  let scale :=
    if narrow && m.is1d then 1
    else if m.is1d then profile.barModuleDots m.width 2 barModuleDots none
    else matrixModuleDots
  m.scaled scale barHeightDots 2

/-- How wide the crates draw the two codes with bars. -/
structure DrawsBars (encode : Symbology → Text → Option BitMatrix) : Prop where
  code39 : ∀ payload m, encode .code39 payload = some m → m.height = 1 ∧ m.width = code39Modules payload.length
  code128 : ∀ payload m, encode .code128 payload = some m → m.height = 1 ∧ m.width = code128Modules payload.length

/-- The paper has room for the code and two modules of white on either side, with two dots per module, or with one
for a code that is drawn thin and on a printer that draws codes as wide as they fit. -/
def Room (profile : DeviceProfile) (narrow : Bool) (symbology : Symbology) (chars : ℕ) : Prop :=
  (if narrow || profile.wideBarcodes then 1 else 2) * (barModules symbology chars + 4) ≤ profile.dots

instance decidableRoom (profile : DeviceProfile) (narrow : Bool) (symbology : Symbology) (chars : ℕ) :
    Decidable (Room profile narrow symbology chars) := inferInstanceAs (Decidable (_ ≤ _))

/-- The ESC/POS back end draws this matrix in the middle of the paper. -/
theorem image_eq (profile : DeviceProfile) (bc : Barcode) (m : BitMatrix) :
    image profile bc m = (drawnCode profile bc.narrow m).centeredIn profile.paper.dots := rfl

section Widths

variable {profile : DeviceProfile} {narrow : Bool} {m : BitMatrix}

theorem width_drawnCode (hbars : m.height = 1) :
    (drawnCode profile narrow m).width = (m.width + 4) *
      (if narrow then 1 else if profile.wideBarcodes then max 1 (profile.dots / (m.width + 4)) else 2) := by
  have hone : m.is1d = true := by rw [BitMatrix.is1d, hbars]; rfl
  have hacross : max (m.width + 2 * 2) 1 = m.width + 4 := max_eq_left (by omega)
  change (m.width + 2 * 2) * max (if narrow && m.is1d then 1 else if m.is1d then
    profile.barModuleDots m.width 2 barModuleDots none else matrixModuleDots) 1 = _
  rw [hone, Bool.and_true, if_pos rfl, DeviceProfile.barModuleDots]
  cases narrow with
  | true => rfl
  | false =>
    cases profile.wideBarcodes with
    | true =>
      dsimp only
      rw [hacross]
      simp
    | false => rfl

/-- As wide as it fits is within the paper if one dot per module is. -/
theorem mul_max_div_le_iff {across dots : ℕ} (hacross : 0 < across) :
    across * max 1 (dots / across) ≤ dots ↔ across ≤ dots := by
  constructor
  · intro h
    exact (Nat.le_mul_of_pos_right _ (by omega)).trans h
  · intro h
    have hone : 1 ≤ dots / across := (Nat.one_le_div_iff hacross).mpr h
    rw [max_eq_right hone]
    exact Nat.mul_div_le dots across

theorem drawnCode_le_iff (hbars : m.height = 1) :
    (drawnCode profile narrow m).width ≤ profile.dots ↔
      (if narrow || profile.wideBarcodes then 1 else 2) * (m.width + 4) ≤ profile.dots := by
  rw [width_drawnCode hbars]
  cases narrow with
  | true => rw [if_pos rfl, Bool.true_or, if_pos rfl, mul_comm]
  | false =>
    rw [Bool.false_or]
    cases profile.wideBarcodes with
    | true =>
      rw [if_neg Bool.false_ne_true, if_pos rfl, if_pos rfl, one_mul]
      exact mul_max_div_le_iff (by omega)
    | false => rw [if_neg Bool.false_ne_true, if_neg Bool.false_ne_true, if_neg Bool.false_ne_true, mul_comm]

end Widths

section Accept

variable {encode : Symbology → Text → Option BitMatrix} {symbology : Symbology} {payload : Text} {m : BitMatrix}

/-- Only codes with bars are accepted. -/
theorem DrawsBars.of_accepted (hdraws : DrawsBars encode) {dots : ℕ} (haccepted : Accepted dots symbology payload)
    (hm : encode symbology payload = some m) : m.height = 1 ∧ m.width = barModules symbology payload.length := by
  cases haccepted with
  | code39 => exact hdraws.code39 _ _ hm
  | code128 => exact hdraws.code128 _ _ hm
  | chosen => exact hdraws.code39 _ _ hm
  | piece => exact hdraws.code128 _ _ hm

/-- Assumes: the crates draw the modules the two codes have. A code that is said to fit is drawn within the paper
exactly when there is room for the quiet zones too, with the dots per module it is drawn with. -/
theorem accepted_within_iff (hdraws : DrawsBars encode) (profile : DeviceProfile) (narrow : Bool)
    (haccepted : Accepted profile.dots symbology payload) (hm : encode symbology payload = some m) :
    (drawnCode profile narrow m).width ≤ profile.dots ↔ Room profile narrow symbology payload.length := by
  obtain ⟨hbars, hwidth⟩ := hdraws.of_accepted haccepted hm
  rw [drawnCode_le_iff hbars, hwidth]
  rfl

/-- What fits at two dots per module is within the paper when it may be drawn with one. -/
theorem room_of_fits {profile : DeviceProfile} {narrow : Bool} (hthin : (narrow || profile.wideBarcodes) = true)
    {chars : ℕ} (hfits : fits chars symbology profile.dots = true) : Room profile narrow symbology chars := by
  have hmodules : 25 ≤ barModules symbology chars := by
    unfold barModules code39Modules code128Modules
    split <;> omega
  have htwice := of_decide_eq_true hfits
  rw [Room, if_pos hthin]
  omega

/-- Only modules: every payload is drawn as a row without a bar. -/
def ruled (symbology : Symbology) (payload : Text) : Option BitMatrix :=
  some ⟨barModules symbology payload.length, 1, []⟩

theorem drawsBars_ruled : DrawsBars ruled :=
  ⟨fun _ _ h ↦ by cases h; exact ⟨rfl, rfl⟩, fun _ _ h ↦ by cases h; exact ⟨rfl, rfl⟩⟩

/-- The settings of a printer as it comes, on a roll of 58 mm. -/
def smallPrinter : DeviceProfile := { receiptPrinter with paper := .mm58, output := .bitmap }

theorem moveLeft_within :
    Accepted smallPrinter.dots (symbologyFor [.moveLeft] smallPrinter.dots) (encodeControls [.moveLeft]) ∧
      ∃ m, ruled .code39 (encodeControls [.moveLeft]) = some m ∧
        (drawnCode smallPrinter false m).width ≤ smallPrinter.dots :=
  have haccepted : Accepted smallPrinter.dots .code39 (encodeControls [.moveLeft]) := .chosen (by decide)
  ⟨haccepted, _, rfl, (accepted_within_iff drawsBars_ruled smallPrinter false haccepted rfl).mpr (by decide)⟩

/-- A long text is cut into pieces that fit at one dot per module, and every piece is drawn with two. -/
theorem longText_runs_off :
    ∃ m, text "--1I/V.xxxxxxxxxxxxxxxxxxxxxxxx" ∈
        chunks (encodeControls [.insert, .value (.text (List.replicate 80 'x'))]) smallPrinter.dots ∧
      ruled .code128 (text "--1I/V.xxxxxxxxxxxxxxxxxxxxxxxx") = some m ∧
      ¬ (drawnCode smallPrinter false m).width ≤ smallPrinter.dots :=
  ⟨_, by decide +kernel, rfl, by decide⟩

end Accept

end Taskologic.Print
