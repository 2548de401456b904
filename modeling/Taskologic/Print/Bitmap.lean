import Mathlib.Data.List.GetD
import Taskologic.Library.Picture
import Taskologic.Print.Render

/-!
# The drawn slip

A `Canvas` is a black and white image with eight dots in a byte, row after row, and `Canvas.rotate` turns it on the
paper. Whatever is drawn, a canvas is packed (`Drawn.packed`): its rows are whole and the bits after the last dot of a
row are zero, so it is given by its picture (`Packed.eq_of_picture_eq`). Turning the canvas turns the picture
(`picture_rotate`), and with that every dot comes to its place and turns compose (`rotate_exact`).

Scope. The numbers of dots and bytes are natural numbers; an image larger than the memory is not modelled. The font is
the parameter `glyph`, and `encode` the crates that draw a code.
-/

set_option autoImplicit false
set_option relaxedAutoImplicit false

namespace Taskologic.Print

open Core Library

/-! ### The canvas -/

/-- Which way up the drawn slip goes. -/
inductive Rotation where
  | upright | cw90 | cw180 | cw270
  deriving DecidableEq, Repr

/-- Whether this turn swaps the image's width and height. -/
def Rotation.swapsSides (r : Rotation) : Bool := r == .cw90 || r == .cw270

/-- Where a dot of an image so wide and high goes. -/
def Rotation.place (r : Rotation) (w h x y : ℕ) : ℕ × ℕ :=
  match r with
  | .upright => (x, y)
  | .cw90 => (h - 1 - y, x)
  | .cw180 => (w - 1 - x, h - 1 - y)
  | .cw270 => (y, w - 1 - x)

/-- The bit of a dot in its byte. -/
def dotBit (x : ℕ) : UInt8 := 0x80 >>> UInt8.ofNat (x % 8)

/-- Whether the bit of a dot is set in its byte. -/
def lit (byte : UInt8) (x : ℕ) : Bool := byte &&& dotBit x != 0

/-- A 1 bit canvas that grows downwards. A set bit is a black dot. -/
structure Canvas where
  width : ℕ
  bytesPerRow : ℕ
  rows : List UInt8
  deriving DecidableEq, Repr

namespace Canvas

def new (width : ℕ) : Canvas := ⟨width, (width + 7) / 8, []⟩

def height (c : Canvas) : ℕ := if c.bytesPerRow = 0 then 0 else c.rows.length / c.bytesPerRow

/-- `reserve_to`: at least this many rows. -/
def reserveTo (c : Canvas) (height : ℕ) : Canvas :=
  let want := height * c.bytesPerRow
  if c.rows.length < want then { c with rows := c.rows ++ List.replicate (want - c.rows.length) 0 } else c

def feed (c : Canvas) (dots : ℕ) : Canvas := c.reserveTo (c.height + dots)

/-- The byte a dot is in. -/
def index (c : Canvas) (x y : ℕ) : ℕ := y * c.bytesPerRow + x / 8

def get (c : Canvas) (x y : ℕ) : Bool :=
  if c.width ≤ x then false else (c.rows[c.index x y]?).any fun b ↦ lit b x

def set (c : Canvas) (x y : ℕ) : Canvas :=
  if c.width ≤ x then c else { c with rows := c.rows.modify (c.index x y) fun b ↦ b ||| dotBit x }

/-- The same image turned on the paper. -/
def rotate (c : Canvas) (r : Rotation) : Canvas :=
  if r = .upright then c
  else
    let (nw, nh) := if r.swapsSides then (c.height, c.width) else (c.width, c.height)
    (List.range c.height).foldl
      (fun out y ↦
        (List.range c.width).foldl
          (fun out x ↦
            if c.get x y then
              let (nx, ny) := r.place c.width c.height x y
              out.set nx ny
            else out)
          out)
      ((new nw).reserveTo nh)

/-- Packed rows, as a matrix hands them out, with the top left corner at `top`. -/
def blit (c : Canvas) (top : ℕ) (rows : List (List UInt8)) : Canvas :=
  rows.zipIdx.foldl
    (fun c row ↦
      (List.range (row.1.length * 8)).foldl
        (fun c x ↦ if lit (row.1.getD (x / 8) 0) x then c.set x (top + row.2) else c) c)
    (c.reserveTo (top + rows.length))

/-- One character, from its 8x8 cell with the leftmost dot of a row in the low bit. Bold is a second pass one dot to
the right. -/
def stamp (c : Canvas) (bold : Bool) (scale x0 top : ℕ) (glyph : List UInt8) : Canvas :=
  glyph.zipIdx.foldl
    (fun c row ↦
      (List.range 8).foldl
        (fun c col ↦
          if row.1 &&& (1 <<< UInt8.ofNat col) = 0 then c
          else
            let c := (List.range scale).foldl
              (fun c dy ↦ (List.range scale).foldl
                (fun c dx ↦ c.set (x0 + col * scale + dx) (top + row.2 * scale + dy)) c) c
            if bold then
              (List.range scale).foldl (fun c dy ↦ c.set (x0 + col * scale + scale) (top + row.2 * scale + dy)) c
            else c)
        c)
    c

/-- One line of text. A character with no glyph is skipped. -/
def text (glyph : Char → Option (List UInt8)) (c : Canvas) (line : TextLine) : Canvas :=
  let scale := bitmapScale * max line.scale 1
  let cell := 8 * scale
  let top := c.height
  let used := line.text.length * cell
  let left := match line.align with
    | .left => 0
    | .center => (c.width - used) / 2
    | .right => c.width - used
  line.text.zipIdx.foldl
    (fun c char ↦
      match glyph char.1 with
      | none => c
      | some rows => c.stamp line.bold scale (left + char.2 * cell) top rows)
    (c.reserveTo (top + cell))

/-- `into_pbm`. -/
def intoPbm (c : Canvas) : List UInt8 :=
  ((Core.text "P4\n" ++ decimal c.width ++ ' ' :: decimal c.height ++ ['\n']).map fun char ↦
    UInt8.ofNat char.toNat) ++ c.rows

end Canvas

/-- Blank dots left above and below a code so it is not crowded. -/
def barcodeMargin : ℕ := 8

section Render

variable (encode : Symbology → Text → Option BitMatrix) (glyph : Char → Option (List UInt8)) (profile : DeviceProfile)

/-- One operation of `render`. A code that cannot be drawn ends it. -/
def drawOp (c : Canvas) : Op → Option Canvas
  | .line l => some (c.text glyph l)
  | .blank => some (c.feed (8 * bitmapScale))
  | .barcode code label => do
    let c := c.text glyph ⟨label, .center, false, 1⟩
    let m ← encode code.symbology code.payload
    let scale :=
      if code.narrow && m.is1d then 1
      else if m.is1d then profile.barModuleDots m.width 2 barModuleDots none
      else matrixModuleDots
    let img := (m.scaled scale barHeightDots 2).centeredIn profile.dots
    let c := c.feed barcodeMargin
    let c := (c.blit c.height (img.packedRows profile.dots).2).feed barcodeMargin
    return c.text glyph ⟨code.payload, .center, false, 1⟩
  | .finish => some (c.feed (8 * bitmapScale * 3))

/-- The slip before it is turned. -/
def drawOps (ops : List Op) : Option Canvas := ops.foldlM (drawOp encode glyph profile) (.new profile.dots)

/-- `bitmap::render`. -/
def renderBitmap (rotation : Rotation) (ops : List Op) : Option (List UInt8) :=
  (drawOps encode glyph profile ops).map fun c ↦ (c.rotate rotation).intoPbm

end Render

/-! ### Bits -/

theorem toBitVec_dotBit (x : ℕ) : (dotBit x).toBitVec = BitVec.twoPow 8 (7 - x % 8) := by
  have hall : ∀ bit : Fin 8, (0x80 >>> UInt8.ofNat bit.val : UInt8).toBitVec = BitVec.twoPow 8 (7 - bit.val) := by
    decide
  exact hall ⟨x % 8, Nat.mod_lt x (by norm_num)⟩

theorem lit_eq (byte : UInt8) (x : ℕ) : lit byte x = byte.toBitVec.getLsbD (7 - x % 8) := by
  have hpow : BitVec.twoPow 8 (7 - x % 8) ≠ 0#8 := by
    intro hzero
    have hbit := congrArg (fun v ↦ v.getLsbD (7 - x % 8)) hzero
    simp only [BitVec.getLsbD_twoPow, BitVec.getLsbD_zero] at hbit
    simp at hbit
    omega
  rw [Bool.eq_iff_iff, lit, bne_iff_ne, ne_eq, ← UInt8.toBitVec_inj, UInt8.toBitVec_and, toBitVec_dotBit,
    BitVec.and_twoPow]
  cases byte.toBitVec.getLsbD (7 - x % 8) <;> simp [hpow]

@[simp]
theorem lit_zero (x : ℕ) : lit 0 x = false := by simp [lit]

theorem lit_or_dotBit (byte : UInt8) (x x' : ℕ) :
    lit (byte ||| dotBit x) x' = (lit byte x' || decide (x % 8 = x' % 8)) := by
  have hx := Nat.mod_lt x (by norm_num : 0 < 8)
  have hx' := Nat.mod_lt x' (by norm_num : 0 < 8)
  rw [lit_eq, lit_eq, UInt8.toBitVec_or, toBitVec_dotBit, BitVec.getLsbD_or, BitVec.getLsbD_twoPow]
  congr 1
  rw [Bool.eq_iff_iff, Bool.and_eq_true, decide_eq_true_iff, decide_eq_true_iff, decide_eq_true_iff]
  omega

theorem byte_eq_of_lit {a b : UInt8} (h : ∀ x < 8, lit a x = lit b x) : a = b := by
  refine UInt8.toBitVec_inj.mp (BitVec.eq_of_getLsbD_eq fun i hi ↦ ?_)
  have hbit := h (7 - i) (by omega)
  have hplace : 7 - (7 - i) % 8 = i := by omega
  rwa [lit_eq, lit_eq, hplace] at hbit

/-! ### Packed canvases -/

namespace Canvas

/-- The bit of a dot, whether it is on the canvas or after the end of a row. -/
def bit (c : Canvas) (x y : ℕ) : Bool := lit (c.rows.getD (c.index x y) 0) x

/-- The rows are whole, and the bits after the last dot of a row are zero. -/
structure Packed (c : Canvas) : Prop where
  bytes : c.bytesPerRow = (c.width + 7) / 8
  whole : c.bytesPerRow ∣ c.rows.length
  blank : ∀ x y, c.width ≤ x → x < 8 * c.bytesPerRow → c.bit x y = false

/-- What can be on a canvas: it begins empty, is made longer, and dots are set. -/
inductive Drawn : Canvas → Prop
  | new (width : ℕ) : Drawn (new width)
  | reserveTo {c : Canvas} (height : ℕ) (h : Drawn c) : Drawn (c.reserveTo height)
  | set {c : Canvas} (x y : ℕ) (h : Drawn c) : Drawn (c.set x y)

section Reading

variable {c : Canvas} {x y : ℕ}

theorem get_eq_bit (hx : x < c.width) : c.get x y = c.bit x y := by
  rw [get, if_neg (not_le.mpr hx), bit, List.getD_eq_getElem?_getD]
  cases c.rows[c.index x y]? with
  | none => simp
  | some byte => rfl

theorem get_of_width_le (hx : c.width ≤ x) : c.get x y = false := if_pos hx

theorem Packed.length_rows (h : c.Packed) : c.rows.length = c.height * c.bytesPerRow := by
  rw [height]
  split_ifs with hbytes
  · rw [hbytes, mul_zero]
    exact Nat.eq_zero_of_zero_dvd (hbytes ▸ h.whole)
  · exact (Nat.div_mul_cancel h.whole).symm

theorem Packed.div_lt (h : c.Packed) (hx : x < c.width) : x / 8 < c.bytesPerRow := by
  have := h.bytes
  omega

theorem Packed.index_lt (h : c.Packed) (hx : x < c.width) (hy : y < c.height) : c.index x y < c.rows.length := by
  have hdiv := h.div_lt hx
  have hrow : (y + 1) * c.bytesPerRow ≤ c.height * c.bytesPerRow := Nat.mul_le_mul_right _ hy
  rw [h.length_rows, index]
  rw [add_mul, one_mul] at hrow
  omega

/-- Nothing is below the last row. -/
theorem Packed.get_of_height_le (h : c.Packed) (hy : c.height ≤ y) : c.get x y = false := by
  by_cases hx : x < c.width
  · have hout : c.rows.length ≤ c.index x y := by
      rw [h.length_rows, index]
      exact (Nat.mul_le_mul_right _ hy).trans (Nat.le_add_right _ _)
    rw [get_eq_bit hx, bit, List.getD_eq_default _ _ hout, lit_zero]
  · exact get_of_width_le (not_lt.mp hx)

theorem Packed.lt_of_get (h : c.Packed) (hdot : c.get x y = true) : x < c.width ∧ y < c.height := by
  refine ⟨not_le.mp fun hx ↦ ?_, not_le.mp fun hy ↦ ?_⟩
  · rw [get_of_width_le hx] at hdot
    cases hdot
  · rw [h.get_of_height_le hy] at hdot
    cases hdot

/-- A byte of the image is in one row and at one place of it. -/
theorem index_inj {x' y' : ℕ} (hx : x / 8 < c.bytesPerRow) (hx' : x' / 8 < c.bytesPerRow)
    (heq : c.index x y = c.index x' y') : x / 8 = x' / 8 ∧ y = y' := by
  have hrow (x y : ℕ) (hx : x / 8 < c.bytesPerRow) : c.index x y / c.bytesPerRow = y := by
    rw [index, add_comm, Nat.add_mul_div_right _ _ (by omega), Nat.div_eq_of_lt hx, zero_add]
  have hplace (x y : ℕ) (hx : x / 8 < c.bytesPerRow) : c.index x y % c.bytesPerRow = x / 8 := by
    rw [index, add_comm, Nat.add_mul_mod_self_right, Nat.mod_eq_of_lt hx]
  exact ⟨by rw [← hplace x y hx, heq, hplace x' y' hx'], by rw [← hrow x y hx, heq, hrow x' y' hx']⟩

end Reading

section Writing

variable {c : Canvas} {x y : ℕ}

@[simp] theorem width_set : (c.set x y).width = c.width := by
  rw [set]
  split_ifs <;> rfl

@[simp] theorem bytesPerRow_set : (c.set x y).bytesPerRow = c.bytesPerRow := by
  rw [set]
  split_ifs <;> rfl

@[simp] theorem length_rows_set : (c.set x y).rows.length = c.rows.length := by
  rw [set]
  split_ifs
  · rfl
  · exact List.length_modify ..

@[simp] theorem height_set : (c.set x y).height = c.height := by
  rw [height, height, bytesPerRow_set, length_rows_set]

theorem bit_set_of_ne {x' y' : ℕ} (hne : c.index x y ≠ c.index x' y' ∨ x % 8 ≠ x' % 8) :
    (c.set x y).bit x' y' = c.bit x' y' := by
  rw [bit, bit, index, index, bytesPerRow_set, set]
  split_ifs
  · rfl
  · simp only [List.getD_eq_getElem?_getD, List.getElem?_modify]
    change lit (Option.getD ((fun a ↦ if c.index x y = c.index x' y' then a ||| dotBit x else a) <$>
      c.rows[c.index x' y']?) 0) x' = lit (c.rows[c.index x' y']?.getD 0) x'
    cases c.rows[c.index x' y']? with
    | none => rfl
    | some byte =>
      simp only [Option.map_eq_map, Option.map_some, Option.getD_some]
      split_ifs with hindex
      · rw [lit_or_dotBit, decide_eq_false (hne.resolve_left (not_not.mpr hindex)), Bool.or_false]
      · rfl

theorem Packed.bit_set_self (h : c.Packed) (hx : x < c.width) (hy : y < c.height) : (c.set x y).bit x y = true := by
  have hin := h.index_lt hx hy
  rw [bit, index, bytesPerRow_set, set, if_neg (not_le.mpr hx), List.getD_eq_getElem?_getD, List.getElem?_modify]
  change lit (Option.getD ((fun a ↦ if c.index x y = c.index x y then a ||| dotBit x else a) <$>
    c.rows[c.index x y]?) 0) x = true
  rw [List.getElem?_eq_getElem hin]
  simp [lit_or_dotBit]

/-- Setting a dot on the canvas makes it black and nothing else. -/
theorem Packed.bit_set (h : c.Packed) (hx : x < c.width) (hy : y < c.height) {x' y' : ℕ}
    (hx' : x' < 8 * c.bytesPerRow) : (c.set x y).bit x' y' = (c.bit x' y' || decide ((x', y') = (x, y))) := by
  by_cases hsame : (x', y') = (x, y)
  · obtain ⟨rfl, rfl⟩ := Prod.mk.inj hsame
    rw [h.bit_set_self hx hy, decide_eq_true rfl, Bool.or_true]
  · rw [decide_eq_false hsame, Bool.or_false]
    refine bit_set_of_ne ?_
    by_contra hne
    push Not at hne
    obtain ⟨hplace, hrow⟩ := index_inj (h.div_lt hx) (by omega) hne.1
    exact hsame (Prod.ext (by omega) hrow.symm)

theorem Packed.set (h : c.Packed) : (c.set x y).Packed := by
  refine ⟨?_, ?_, fun x' y' hx' hpad ↦ ?_⟩
  · rw [bytesPerRow_set, width_set]
    exact h.bytes
  · rw [bytesPerRow_set, length_rows_set]
    exact h.whole
  · rw [width_set] at hx'
    rw [bytesPerRow_set] at hpad
    by_cases hx : x < c.width
    · have hne : c.index x y ≠ c.index x' y' ∨ x % 8 ≠ x' % 8 := by
        by_contra hne
        push Not at hne
        obtain ⟨hplace, -⟩ := index_inj (h.div_lt hx) (by omega) hne.1
        omega
      rw [bit_set_of_ne hne]
      exact h.blank x' y' hx' hpad
    · rw [Canvas.set, if_pos (not_lt.mp hx)]
      exact h.blank x' y' hx' hpad

theorem packed_new (width : ℕ) : (new width).Packed :=
  ⟨rfl, Dvd.intro_left 0 (Nat.zero_mul _), fun x y _ _ ↦ by simp [bit, new]⟩

theorem bit_reserveTo (height : ℕ) : (c.reserveTo height).bit x y = c.bit x y := by
  rw [bit, bit, reserveTo]
  split_ifs
  · change lit ((c.rows ++ List.replicate _ 0).getD (c.index x y) 0) x = _
    by_cases hin : c.index x y < c.rows.length
    · rw [List.getD_append _ _ _ _ hin]
    · rw [List.getD_append_right _ _ _ _ (not_lt.mp hin), List.getD_eq_default _ _ (not_lt.mp hin)]
      simp
  · rfl

@[simp] theorem width_reserveTo (height : ℕ) : (c.reserveTo height).width = c.width := by
  rw [reserveTo]
  split_ifs <;> rfl

@[simp] theorem bytesPerRow_reserveTo (height : ℕ) : (c.reserveTo height).bytesPerRow = c.bytesPerRow := by
  rw [reserveTo]
  split_ifs <;> rfl

theorem length_rows_reserveTo (height : ℕ) :
    (c.reserveTo height).rows.length = max c.rows.length (height * c.bytesPerRow) := by
  rw [reserveTo]
  split_ifs
  · rw [List.length_append, List.length_replicate]
    omega
  · omega

theorem Packed.reserveTo (h : c.Packed) (height : ℕ) : (c.reserveTo height).Packed := by
  refine ⟨?_, ?_, fun x y hx hpad ↦ ?_⟩
  · rw [bytesPerRow_reserveTo, width_reserveTo]
    exact h.bytes
  · rw [bytesPerRow_reserveTo, length_rows_reserveTo]
    rcases max_choice c.rows.length (height * c.bytesPerRow) with hmax | hmax
    · rw [hmax]
      exact h.whole
    · rw [hmax]
      exact Dvd.intro_left height rfl
  · rw [width_reserveTo] at hx
    rw [bytesPerRow_reserveTo] at hpad
    rw [bit_reserveTo]
    exact h.blank x y hx hpad

/-- Whatever is drawn, the rows are whole and no bit is set after the end of a row. -/
theorem Drawn.packed (h : c.Drawn) : c.Packed := by
  induction h with
  | new width => exact packed_new width
  | reserveTo height _ ih => exact ih.reserveTo height
  | set x y _ ih => exact ih.set

theorem drawn_foldl {ι : Type*} {f : Canvas → ι → Canvas} (hf : ∀ c i, c.Drawn → (f c i).Drawn) (l : List ι)
    (h : c.Drawn) : (l.foldl f c).Drawn := by
  induction l generalizing c with
  | nil => exact h
  | cons i rest ih => exact ih (hf c i h)

theorem Drawn.feed (h : c.Drawn) (dots : ℕ) : (c.feed dots).Drawn := h.reserveTo _

theorem Drawn.blit (h : c.Drawn) (top : ℕ) (rows : List (List UInt8)) : (c.blit top rows).Drawn := by
  refine drawn_foldl (fun c row hc ↦ drawn_foldl (fun c x hc ↦ ?_) _ hc) _ (h.reserveTo _)
  split_ifs
  · exact hc.set x _
  · exact hc

theorem Drawn.stamp (h : c.Drawn) (bold : Bool) (scale x0 top : ℕ) (glyph : List UInt8) :
    (c.stamp bold scale x0 top glyph).Drawn := by
  refine drawn_foldl (fun c row hc ↦ drawn_foldl (fun c col hc ↦ ?_) _ hc) _ h
  have hcell : ((List.range scale).foldl (fun c dy ↦ (List.range scale).foldl
      (fun c dx ↦ c.set (x0 + col * scale + dx) (top + row.2 * scale + dy)) c) c).Drawn :=
    drawn_foldl (fun c dy hc ↦ drawn_foldl (fun c dx hc ↦ hc.set _ _) _ hc) _ hc
  dsimp only
  split_ifs
  · exact hc
  · exact drawn_foldl (fun c dy hc ↦ hc.set _ _) _ hcell
  · exact hcell

theorem Drawn.text (h : c.Drawn) (glyph : Char → Option (List UInt8)) (line : TextLine) :
    (c.text glyph line).Drawn := by
  refine drawn_foldl (fun c char hc ↦ ?_) _ (h.reserveTo _)
  cases glyph char.1 with
  | none => exact hc
  | some rows => exact hc.stamp _ _ _ _ rows

/-- What `rotate` makes is drawn too. -/
theorem Drawn.rotate (h : c.Drawn) (r : Rotation) : (c.rotate r).Drawn := by
  rw [Canvas.rotate]
  split_ifs
  · exact h
  all_goals
    refine drawn_foldl (fun out y hout ↦ drawn_foldl (fun out x hout ↦ ?_) _ hout) _ ((Drawn.new _).reserveTo _)
    split_ifs
    · exact hout.set _ _
    · exact hout

end Writing

end Canvas

section Render

variable {encode : Symbology → Text → Option BitMatrix} {glyph : Char → Option (List UInt8)} {profile : DeviceProfile}

theorem drawn_drawOp {c c' : Canvas} (h : c.Drawn) {op : Op} (hop : drawOp encode glyph profile c op = some c') :
    c'.Drawn := by
  cases op with
  | line l =>
    cases hop
    exact h.text glyph l
  | blank =>
    cases hop
    exact h.feed _
  | finish =>
    cases hop
    exact h.feed _
  | barcode code label =>
    rw [drawOp] at hop
    obtain ⟨m, -, hm⟩ := Option.bind_eq_some_iff.mp hop
    cases hm
    exact ((((h.text glyph _).feed _).blit _ _).feed _).text glyph _

/-- The slip that `render` turns is a drawn canvas. -/
theorem drawn_drawOps {ops : List Op} {c : Canvas} (hops : drawOps encode glyph profile ops = some c) : c.Drawn := by
  have hfold (ops : List Op) (c₀ : Canvas) (h : c₀.Drawn) (hops : ops.foldlM (drawOp encode glyph profile) c₀ = some c) :
      c.Drawn := by
    induction ops generalizing c₀ with
    | nil =>
      cases hops
      exact h
    | cons op rest ih =>
      obtain ⟨c₁, hop, hrest⟩ := Option.bind_eq_some_iff.mp hops
      exact ih c₁ (drawn_drawOp h hop) hrest
  exact hfold ops _ (.new _) hops

end Render

/-! ### Turning -/

/-- The number of quarter turns clockwise. -/
def Rotation.turns : Rotation → ℕ
  | .upright => 0
  | .cw90 => 1
  | .cw180 => 2
  | .cw270 => 3

/-- One turn and then another. -/
def Rotation.compose (r r' : Rotation) : Rotation :=
  match (r.turns + r'.turns) % 4 with
  | 0 => .upright
  | 1 => .cw90
  | 2 => .cw180
  | _ => .cw270

theorem Rotation.turns_compose (r r' : Rotation) : (r.compose r').turns = (r.turns + r'.turns) % 4 := by
  cases r <;> cases r' <;> rfl

namespace Canvas

/-- The picture on a packed canvas. -/
def picture (c : Canvas) (h : c.Packed) : Picture where
  width := c.width
  height := c.height
  dots := {p | c.get p.1 p.2 = true}
  inside := fun _ hp ↦ h.lt_of_get hp

section Pictures

variable {c c' : Canvas}

/-- A packed canvas is given by its picture. -/
theorem Packed.eq_of_picture_eq (h : c.Packed) (h' : c'.Packed) (heq : c.picture h = c'.picture h') : c = c' := by
  have hwidth : c.width = c'.width := congrArg Picture.width heq
  have hheight : c.height = c'.height := congrArg Picture.height heq
  have hdots (x y : ℕ) : c.get x y = c'.get x y := by
    rw [Bool.eq_iff_iff]
    exact Set.ext_iff.mp (congrArg Picture.dots heq) (x, y)
  have hbytes : c.bytesPerRow = c'.bytesPerRow := by rw [h.bytes, h'.bytes, hwidth]
  have hbit (x y : ℕ) (hx : x < 8 * c.bytesPerRow) : c.bit x y = c'.bit x y := by
    by_cases hin : x < c.width
    · rw [← get_eq_bit hin, hdots, get_eq_bit (hwidth ▸ hin)]
    · rw [h.blank x y (not_lt.mp hin) hx, h'.blank x y (hwidth ▸ not_lt.mp hin) (hbytes ▸ hx)]
  have hrows : c.rows = c'.rows := by
    refine List.ext_getElem (by rw [h.length_rows, h'.length_rows, hheight, hbytes]) fun i hi hi' ↦ ?_
    refine byte_eq_of_lit fun x hx ↦ ?_
    have hpos : 0 < c.bytesPerRow := by
      rw [h.length_rows] at hi
      exact Nat.pos_of_mul_pos_left (Nat.zero_lt_of_lt hi)
    have hplace : i % c.bytesPerRow < c.bytesPerRow := Nat.mod_lt i hpos
    have hindex : i / c.bytesPerRow * c.bytesPerRow + (8 * (i % c.bytesPerRow) + x) / 8 = i := by
      have hdiv : (8 * (i % c.bytesPerRow) + x) / 8 = i % c.bytesPerRow := by omega
      rw [hdiv, mul_comm]
      exact Nat.div_add_mod i c.bytesPerRow
    have hbyte := hbit (8 * (i % c.bytesPerRow) + x) (i / c.bytesPerRow) (by omega)
    have hmod (byte : UInt8) : lit byte (8 * (i % c.bytesPerRow) + x) = lit byte x := by
      rw [lit, lit, dotBit, dotBit, Nat.mul_add_mod]
    rw [bit, bit, index, index, ← hbytes, hindex, hmod, hmod, List.getD_eq_getElem _ _ hi,
      List.getD_eq_getElem _ _ hi'] at hbyte
    exact hbyte
  cases c
  cases c'
  simp_all

/-- On the canvas these places are black now, and nothing else has changed. -/
structure Adds (points : Set (ℕ × ℕ)) (c c' : Canvas) : Prop where
  packed : c'.Packed
  width : c'.width = c.width
  height : c'.height = c.height
  get : ∀ x y, c'.get x y = true ↔ c.get x y = true ∨ (x, y) ∈ points

theorem Packed.adds_set (h : c.Packed) {x y : ℕ} (hx : x < c.width) (hy : y < c.height) :
    Adds {(x, y)} c (c.set x y) := by
  refine ⟨h.set, width_set, height_set, fun x' y' ↦ ?_⟩
  by_cases hx' : x' < c.width
  · have hrow : x' < 8 * c.bytesPerRow := by
      have := h.bytes
      omega
    rw [get_eq_bit (by rwa [width_set]), get_eq_bit hx', h.bit_set hx hy hrow, Bool.or_eq_true, decide_eq_true_iff,
      Set.mem_singleton_iff]
  · have hne : (x', y') ∉ ({(x, y)} : Set (ℕ × ℕ)) := by
      rintro heq
      obtain ⟨rfl, rfl⟩ := Prod.mk.inj heq
      exact hx' hx
    rw [get_of_width_le (by rw [width_set]; exact not_lt.mp hx'), get_of_width_le (not_lt.mp hx')]
    simp [hne]

theorem adds_foldl {ι : Type*} {f : Canvas → ι → Canvas} {points : ι → Set (ℕ × ℕ)} {l : List ι} (h : c.Packed)
    (hf : ∀ i ∈ l, ∀ c' : Canvas, c'.Packed → c'.width = c.width → c'.height = c.height → Adds (points i) c' (f c' i)) :
    Adds {p | ∃ i ∈ l, p ∈ points i} c (l.foldl f c) := by
  induction l generalizing c with
  | nil => exact ⟨h, rfl, rfl, by simp⟩
  | cons i rest ih =>
    have hfirst := hf i List.mem_cons_self c h rfl rfl
    have hrest := ih hfirst.packed fun j hj c' hc' hwidth hheight ↦
      hf j (List.mem_cons_of_mem i hj) c' hc' (hwidth.trans hfirst.width) (hheight.trans hfirst.height)
    refine ⟨hrest.packed, hrest.width.trans hfirst.width, hrest.height.trans hfirst.height, fun x y ↦ ?_⟩
    rw [List.foldl_cons, hrest.get, hfirst.get, or_assoc]
    simp

theorem Packed.height_eq (h : c.Packed) {height : ℕ} (hwidth : 0 < c.width)
    (hlength : c.rows.length = height * c.bytesPerRow) : c.height = height := by
  have hbytes : 0 < c.bytesPerRow := by
    have := h.bytes
    omega
  rw [Canvas.height, if_neg hbytes.ne', hlength, Nat.mul_div_cancel _ hbytes]

/-- An empty canvas so wide and high. -/
theorem blank_reserveTo {nw : ℕ} (nh : ℕ) (hnw : 0 < nw) :
    ((new nw).reserveTo nh).Packed ∧ ((new nw).reserveTo nh).width = nw ∧ ((new nw).reserveTo nh).height = nh ∧
      ∀ x y, ((new nw).reserveTo nh).get x y = false := by
  have hpacked := (packed_new nw).reserveTo nh
  refine ⟨hpacked, width_reserveTo nh, hpacked.height_eq (by rwa [width_reserveTo]) ?_, fun x y ↦ ?_⟩
  · rw [length_rows_reserveTo, bytesPerRow_reserveTo]
    exact max_eq_right (Nat.zero_le _)
  · by_cases hx : x < nw
    · rw [get_eq_bit (by rwa [width_reserveTo]), bit_reserveTo]
      simp [bit, new]
    · exact get_of_width_le (by rw [width_reserveTo]; exact not_lt.mp hx)

/-- Assumes: a packed canvas with some width and height, and not the turn that changes nothing. -/
theorem Packed.rotate_adds (h : c.Packed) (hw : 0 < c.width) (hh : 0 < c.height) {r : Rotation} (hr : r ≠ .upright) :
    (c.rotate r).Packed ∧
      (c.rotate r).width = (if r.swapsSides then c.height else c.width) ∧
      (c.rotate r).height = (if r.swapsSides then c.width else c.height) ∧
      ∀ x y, (c.rotate r).get x y = true ↔
        ∃ x₀ y₀, c.get x₀ y₀ = true ∧ (x, y) = r.place c.width c.height x₀ y₀ := by
  let nw := if r.swapsSides then c.height else c.width
  let nh := if r.swapsSides then c.width else c.height
  have hnw : 0 < nw := by
    dsimp only [nw]
    split_ifs <;> assumption
  have hplace {x y : ℕ} (hx : x < c.width) (hy : y < c.height) :
      (r.place c.width c.height x y).1 < nw ∧ (r.place c.width c.height x y).2 < nh := by
    dsimp only [nw, nh]
    cases r <;> simp only [Rotation.place, Rotation.swapsSides] <;> simp <;> omega
  obtain ⟨hpacked, hwidth, hheight, hblank⟩ := blank_reserveTo nh hnw
  have hdot (y : ℕ) (hy : y < c.height) (x : ℕ) (hx : x < c.width) (out : Canvas) (hout : out.Packed)
      (hw' : out.width = nw) (hh' : out.height = nh) :
      Adds {p | c.get x y = true ∧ p = r.place c.width c.height x y} out
        (if c.get x y then out.set (r.place c.width c.height x y).1 (r.place c.width c.height x y).2 else out) := by
    by_cases hget : c.get x y = true
    · rw [if_pos hget]
      have hin := hplace hx hy
      have hset := hout.adds_set (hw' ▸ hin.1) (hh' ▸ hin.2)
      have hpoints : {p | c.get x y = true ∧ p = r.place c.width c.height x y} =
          {r.place c.width c.height x y} := by
        simp only [hget, true_and]
        rfl
      exact hpoints ▸ hset
    · rw [if_neg hget]
      exact ⟨hout, rfl, rfl, by simp [hget]⟩
  have hrow (y : ℕ) (hy : y < c.height) (out : Canvas) (hout : out.Packed) (hw' : out.width = nw)
      (hh' : out.height = nh) :=
    adds_foldl (l := List.range c.width) hout fun x hx out' hout' hw'' hh'' ↦
      hdot y hy x (List.mem_range.mp hx) out' hout' (hw''.trans hw') (hh''.trans hh')
  have hall := adds_foldl (l := List.range c.height) hpacked fun y hy out hout hw' hh' ↦
    hrow y (List.mem_range.mp hy) out hout (hw'.trans hwidth) (hh'.trans hheight)
  have hrotate : c.rotate r = (List.range c.height).foldl
      (fun out y ↦ (List.range c.width).foldl
        (fun out x ↦ if c.get x y then
          out.set (r.place c.width c.height x y).1 (r.place c.width c.height x y).2 else out) out)
      ((new nw).reserveTo nh) := by
    rw [rotate, if_neg hr]
    dsimp only [nw, nh]
    split_ifs <;> rfl
  rw [hrotate]
  refine ⟨hall.packed, hall.width.trans hwidth, hall.height.trans hheight, fun x y ↦ ?_⟩
  rw [hall.get, hblank]
  constructor
  · rintro (hfalse | ⟨y₀, -, x₀, -, hget, hp⟩)
    · cases hfalse
    · exact ⟨x₀, y₀, hget, hp⟩
  · rintro ⟨x₀, y₀, hget, hp⟩
    obtain ⟨hx, hy⟩ := h.lt_of_get hget
    exact .inr ⟨y₀, List.mem_range.mpr hy, x₀, List.mem_range.mpr hx, hget, hp⟩

/-- Turning the canvas turns the picture. -/
theorem Packed.picture_rotate (h : c.Packed) (hw : 0 < c.width) (hh : 0 < c.height) (r : Rotation)
    (h' : (c.rotate r).Packed) : (c.rotate r).picture h' = Picture.quarter^[r.turns] (c.picture h) := by
  by_cases hr : r = .upright
  · subst hr
    rfl
  · obtain ⟨-, hwidth, hheight, hget⟩ := h.rotate_adds hw hh hr
    have hdots : ((c.rotate r).picture h').dots =
        (fun p : ℕ × ℕ ↦ r.place c.width c.height p.1 p.2) '' (c.picture h).dots := by
      ext ⟨x, y⟩
      refine (hget x y).trans ⟨?_, ?_⟩
      · rintro ⟨x₀, y₀, hdot, hp⟩
        exact ⟨(x₀, y₀), hdot, hp.symm⟩
      · rintro ⟨p, hdot, hp⟩
        exact ⟨p.1, p.2, hdot, hp.symm⟩
    cases r with
    | upright => exact absurd rfl hr
    | cw90 => exact Picture.ext hwidth hheight hdots
    | cw180 => exact Picture.ext hwidth hheight (hdots.trans (Picture.dots_half _).symm)
    | cw270 => exact Picture.ext hwidth hheight (hdots.trans (Picture.dots_threeQuarter _).symm)

/-- One turn after another is one turn. -/
theorem Drawn.rotate_rotate (h : c.Drawn) (hw : 0 < c.width) (hh : 0 < c.height) (r r' : Rotation) :
    (c.rotate r).rotate r' = c.rotate (r.compose r') := by
  have hside : 0 < (c.rotate r).width ∧ 0 < (c.rotate r).height := by
    by_cases hr : r = .upright
    · subst hr
      exact ⟨hw, hh⟩
    · obtain ⟨-, hwidth, hheight, -⟩ := h.packed.rotate_adds hw hh hr
      rw [hwidth, hheight]
      split_ifs <;> exact ⟨by assumption, by assumption⟩
  have hfirst := (h.rotate r).packed
  refine ((h.rotate r).rotate r').packed.eq_of_picture_eq (h.rotate _).packed ?_
  rw [hfirst.picture_rotate hside.1 hside.2, h.packed.picture_rotate hw hh, h.packed.picture_rotate hw hh,
    ← Function.iterate_add_apply, Rotation.turns_compose, Picture.iterate_quarter_mod, add_comm]

/-- A clockwise quarter turn puts the dot at `(x, y)` at `(h - 1 - y, x)` and sets no other; turns compose, four
quarter turns change nothing, and no turned canvas has a bit after the end of a row. -/
theorem rotate_exact (h : c.Drawn) (hw : 0 < c.width) (hh : 0 < c.height) :
    (∀ x y, x < c.width → y < c.height → (c.rotate .cw90).get (c.height - 1 - y) x = c.get x y) ∧
      (∀ x y, (c.rotate .cw90).get x y = true →
        ∃ x₀ y₀, c.get x₀ y₀ = true ∧ x = c.height - 1 - y₀ ∧ y = x₀) ∧
      (∀ r r', (c.rotate r).rotate r' = c.rotate (r.compose r')) ∧
      (c.rotate .cw90).rotate .cw90 = c.rotate .cw180 ∧
      (((c.rotate .cw90).rotate .cw90).rotate .cw90).rotate .cw90 = c ∧
      (∀ r, (c.rotate r).width = (if r.swapsSides then c.height else c.width) ∧
        (c.rotate r).height = (if r.swapsSides then c.width else c.height)) ∧
      ∀ r x y, (c.rotate r).width ≤ x → x < 8 * (c.rotate r).bytesPerRow → (c.rotate r).bit x y = false := by
  obtain ⟨-, -, -, hget⟩ := h.packed.rotate_adds hw hh (by decide : Rotation.cw90 ≠ .upright)
  have hcompose := h.rotate_rotate hw hh
  refine ⟨fun x y hx hy ↦ ?_, fun x y hdot ↦ ?_, hcompose, hcompose .cw90 .cw90, ?_, fun r ↦ ?_, fun r ↦ ?_⟩
  · rw [Bool.eq_iff_iff, hget]
    constructor
    · rintro ⟨x₀, y₀, hdot, hp⟩
      obtain ⟨hrow, rfl⟩ := Prod.mk.inj hp
      have hin := h.packed.lt_of_get hdot
      obtain rfl : y₀ = y := by omega
      exact hdot
    · exact fun hdot ↦ ⟨x, y, hdot, rfl⟩
  · obtain ⟨x₀, y₀, hdot, hp⟩ := (hget x y).mp hdot
    exact ⟨x₀, y₀, hdot, Prod.mk.inj hp⟩
  · rw [hcompose, hcompose, hcompose]
    rfl
  · by_cases hr : r = .upright
    · subst hr
      exact ⟨rfl, rfl⟩
    · obtain ⟨-, hwidth, hheight, -⟩ := h.packed.rotate_adds hw hh hr
      exact ⟨hwidth, hheight⟩
  · exact (h.rotate r).packed.blank

/-- Two dots on a canvas of ten by three. -/
def speckled : Canvas := (((new 10).reserveTo 3).set 9 0).set 1 2

/-- Two bytes a row with six bits to spare, and one byte with five after the turn. -/
theorem speckled_rotates :
    0 < speckled.width ∧ 0 < speckled.height ∧ (speckled.rotate .cw90).rows = [0, 0x80, 0, 0, 0, 0, 0, 0, 0, 0x20] ∧
      (((speckled.rotate .cw90).rotate .cw90).rotate .cw90).rotate .cw90 = speckled :=
  ⟨by decide, by decide, by decide,
    (rotate_exact ((((Drawn.new 10).reserveTo 3).set 9 0).set 1 2) (by decide) (by decide)).2.2.2.2.1⟩

end Pictures

end Canvas

end Taskologic.Print
