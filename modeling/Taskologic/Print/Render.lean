import Taskologic.Print.EscPos

/-!
# The ESC/POS back end

`escposBytes` turns the operations of a plan into the bytes for a printer, and `askedCommands` says which commands and
texts the operations ask for. `escpos_reads_back_iff` compares the two: the printer reads back what was asked exactly
where no text has a control character, every payload for one of the printer's own codes is text of that code and
short enough, and every image is small enough for its header.

Scope. The crates that draw a code are the parameter `encode`, which has no matrix for a payload it refuses.
-/

set_option autoImplicit false
set_option relaxedAutoImplicit false

namespace Taskologic.Print

open Library Core

/-! ### Matrices -/

/-- A black and white module grid. Codes with bars have a height of one. -/
structure BitMatrix where
  width : ℕ
  height : ℕ
  bits : List Bool
  deriving DecidableEq, Repr

namespace BitMatrix

def get (m : BitMatrix) (x y : ℕ) : Bool :=
  decide (x < m.width) && decide (y < m.height) && m.bits.getD (y * m.width + x) false

/-- A grid by its modules. -/
def ofModules (width height : ℕ) (module : ℕ → ℕ → Bool) : BitMatrix where
  width
  height
  bits := (List.range height).flatMap fun y ↦ (List.range width).map fun x ↦ module x y

def is1d (m : BitMatrix) : Bool := m.height == 1

/-- Every module as `scale` times `scale` dots, bars as high as asked for, and white around it. -/
def scaled (m : BitMatrix) (scale barHeight quiet : ℕ) : BitMatrix :=
  let scale := max scale 1
  let rows := if m.is1d then max barHeight 1 else m.height * scale
  ofModules ((m.width + 2 * quiet) * scale) (rows + 2 * quiet * scale) fun x y ↦
    decide (quiet * scale ≤ x) && decide (quiet * scale ≤ y) && decide (y - quiet * scale < rows) &&
      m.get ((x - quiet * scale) / scale) (if m.is1d then 0 else (y - quiet * scale) / scale)

/-- The image shifted right so it sits in the middle. -/
def centeredIn (m : BitMatrix) (totalWidth : ℕ) : BitMatrix :=
  if totalWidth ≤ m.width then m
  else
    let pad := (totalWidth - m.width) / 2
    ofModules totalWidth m.height fun x y ↦ decide (pad ≤ x) && m.get (x - pad) y

/-- Eight modules of a row, the first in the highest bit. -/
def packedByte (m : BitMatrix) (y place : ℕ) : UInt8 :=
  (List.range 8).foldl (fun byte bit ↦
    if m.get (place * 8 + bit) y then byte ||| (0x80 >>> UInt8.ofNat bit) else byte) 0

/-- Bytes of a row that is at least as wide as the image. -/
def bytesPerRow (m : BitMatrix) (totalWidth : ℕ) : ℕ := (max totalWidth m.width + 7) / 8

def rows (m : BitMatrix) (totalWidth : ℕ) : List (List UInt8) :=
  (List.range m.height).map fun y ↦ (List.range (m.bytesPerRow totalWidth)).map (m.packedByte y)

/-- `packed_rows`: the number of bytes is cut to sixteen bits. -/
def packedRows (m : BitMatrix) (totalWidth : ℕ) : ℕ × List (List UInt8) :=
  (m.bytesPerRow totalWidth % 65536, m.rows totalWidth)

@[simp] theorem length_rows (m : BitMatrix) (totalWidth : ℕ) : (m.rows totalWidth).length = m.height := by
  simp [rows]

theorem length_flatten_rows (m : BitMatrix) (totalWidth : ℕ) :
    (m.rows totalWidth).flatten.length = m.bytesPerRow totalWidth * m.height := by
  simp [rows, List.length_flatten, Function.comp_def, mul_comm]

end BitMatrix

/-! ### The bytes -/

def barHeightDots : ℕ := 64

def barModuleDots : ℕ := 2

def matrixModuleDots : ℕ := 4

/-- The printer's own command for a code. A code asked for thin is rasterised whatever the printer can do. -/
def nativeKind (profile : DeviceProfile) (bc : Barcode) : Option NativeBarcode :=
  if bc.narrow then none
  else
    match bc.symbology with
    | .code39 => if profile.supportsNatively .code39 then some .code39 else none
    | .code128 => if profile.supportsNatively .code128 then some .code128 else none
    | .qr | .dataMatrix => none

/-- The width of a module of the printer's own codes. -/
def nativeWidth (profile : DeviceProfile) (m : BitMatrix) : UInt8 :=
  UInt8.ofNat (profile.barModuleDots m.width 10 barModuleDots (some 6))

/-- The picture of a code. -/
def image (profile : DeviceProfile) (bc : Barcode) (m : BitMatrix) : BitMatrix :=
  let scale :=
    if bc.narrow && m.is1d then 1
    else if m.is1d then profile.barModuleDots m.width 2 barModuleDots none
    else matrixModuleDots
  (m.scaled scale barHeightDots 2).centeredIn profile.paper.dots

/-- `set_align`. -/
def setAlign (current want : Align) : List UInt8 := if current ≠ want then EscPos.align want else []

def emitLine (codepage : Codepage) (l : TextLine) : List UInt8 :=
  (if l.bold then EscPos.bold true else []) ++ (if 1 < l.scale then EscPos.size l.scale l.scale else []) ++
    EscPos.line codepage l.text ++
    (if 1 < l.scale then EscPos.size 1 1 else []) ++ (if l.bold then EscPos.bold false else [])

section Backend

variable (encode : Symbology → Text → Option BitMatrix) (profile : DeviceProfile)

/-- `barcode`. -/
def barcodeBytes (bc : Barcode) : Option (List UInt8) :=
  (encode bc.symbology bc.payload).map fun m ↦
    match nativeKind profile bc with
    | some kind => EscPos.nativeBarcode kind bc.payload (UInt8.ofNat barHeightDots) (nativeWidth profile m)
    | none =>
      let (bytesPerRow, rows) := (image profile bc m).packedRows profile.paper.dots
      EscPos.raster bytesPerRow rows ++ EscPos.line profile.codepage bc.payload

/-- The bytes of one operation. -/
def opBytes (align : Align) : Op → Option (List UInt8)
  | .line l => some (setAlign align l.align ++ emitLine profile.codepage l)
  | .blank => some EscPos.newline
  | .barcode code label => (barcodeBytes encode profile code).map fun bytes ↦
    setAlign align .center ++ EscPos.line profile.codepage label ++ bytes
  | .finish => some (setAlign align .left ++ if profile.autoCutter then EscPos.cut else EscPos.feed 5)

/-- How the text stands after an operation. -/
def Op.alignAfter (align : Align) : Op → Align
  | .line l => l.align
  | .blank => align
  | .barcode _ _ => .center
  | .finish => .left

def opsBytes : Align → List Op → Option (List UInt8)
  | _, [] => some []
  | align, op :: rest =>
    match opBytes encode profile align op with
    | none => none
    | some bytes => (opsBytes (op.alignAfter align) rest).map (bytes ++ ·)

/-- `escpos_bytes`: nothing where a code cannot be drawn. -/
def escposBytes (ops : List Op) : Option (List UInt8) :=
  (opsBytes encode profile .left ops).map (EscPos.new profile.codepage ++ ·)

/-! ### What was asked for -/

/-- A text is printed byte by byte. -/
def printed (codepage : Codepage) (s : Text) : List Command := (codepage.encode s).map .print

def askedLine (codepage : Codepage) (s : Text) : List Command := printed codepage s ++ [.newline]

def alignNumber : Align → UInt8
  | .left => 0
  | .center => 1
  | .right => 2

def askedAlign (current want : Align) : List Command :=
  if current ≠ want then [.set .align (alignNumber want)] else []

/-- The argument of a size. -/
def sizeNumber (scale : ℕ) : UInt8 := UInt8.ofNat ((max 1 (min scale 8) - 1) * 16 + (max 1 (min scale 8) - 1))

def askedEmphasis (l : TextLine) : List Command :=
  (if l.bold then [.set .bold 1] else []) ++ (if 1 < l.scale then [.set .size (sizeNumber l.scale)] else [])

def askedPlain (l : TextLine) : List Command :=
  (if 1 < l.scale then [.set .size (sizeNumber 1)] else []) ++ (if l.bold then [.set .bold 0] else [])

/-- A code: one of the printer's own with its whole payload, or a picture with the payload under it. -/
def askedCode (bc : Barcode) (m : BitMatrix) : List Command :=
  match nativeKind profile bc with
  | some kind =>
    [.set .barHeight (UInt8.ofNat barHeightDots), .set .barWidth (max 2 (min (nativeWidth profile m) 6)),
      .set .barText 2, .barcode kind (bc.payload.flatMap String.utf8EncodeChar), .newline]
  | none =>
    let picture := image profile bc m
    .raster (picture.bytesPerRow profile.paper.dots) picture.height (picture.rows profile.paper.dots).flatten ::
      askedLine profile.codepage bc.payload

def askedOp (align : Align) : Op → Option (List Command)
  | .line l => some (askedAlign align l.align ++ (askedEmphasis l ++ askedLine profile.codepage l.text ++ askedPlain l))
  | .blank => some [.newline]
  | .barcode code label => (encode code.symbology code.payload).map fun m ↦
    askedAlign align .center ++ askedLine profile.codepage label ++ askedCode profile code m
  | .finish => some (askedAlign align .left ++
    if profile.autoCutter then [.set .feed 4, .set .cut 1] else [.set .feed 5])

def askedOps : Align → List Op → Option (List Command)
  | _, [] => some []
  | align, op :: rest =>
    match askedOp encode profile align op with
    | none => none
    | some commands => (askedOps (op.alignAfter align) rest).map (commands ++ ·)

/-- The commands and texts a plan asks for. -/
def askedCommands (ops : List Op) : Option (List Command) :=
  let preamble := match profile.codepage.escposNumber with
    | some n => [Command.init, .set .codepage n]
    | none => [.init]
  (askedOps encode profile .left ops).map (preamble ++ ·)

end Backend

/-! ### The bytes are the commands written out -/

variable {encode : Symbology → Text → Option BitMatrix} {profile : DeviceProfile}

@[simp] theorem flatMap_printed (codepage : Codepage) (s : Text) :
    (printed codepage s).flatMap Command.bytes = codepage.encode s := by
  simp [printed, List.flatMap_map, Command.bytes]

@[simp] theorem flatMap_askedLine (codepage : Codepage) (s : Text) :
    (askedLine codepage s).flatMap Command.bytes = EscPos.line codepage s := by
  simp [askedLine, EscPos.line, EscPos.newline, Command.bytes]

@[simp] theorem flatMap_askedAlign (current want : Align) :
    (askedAlign current want).flatMap Command.bytes = setAlign current want := by
  unfold askedAlign setAlign
  split_ifs
  · cases want <;> rfl
  · rfl

theorem flatMap_askedText (codepage : Codepage) (l : TextLine) :
    (askedEmphasis l ++ askedLine codepage l.text ++ askedPlain l).flatMap Command.bytes = emitLine codepage l := by
  have hbold (on : UInt8) : (if l.bold then [Command.set .bold on] else []).flatMap Command.bytes =
      if l.bold then [esc, 0x45, on] else [] := by
    split_ifs <;> rfl
  have hsize (scale : ℕ) : (if 1 < l.scale then [Command.set .size (sizeNumber scale)] else []).flatMap Command.bytes =
      if 1 < l.scale then EscPos.size scale scale else [] := by
    split_ifs <;> rfl
  simp only [askedEmphasis, askedPlain, List.flatMap_append, flatMap_askedLine, hbold, hsize, emitLine,
    List.append_assoc]
  rfl

theorem le16_mod (n : ℕ) : le16 (n % 65536) = le16 n := by
  have hlow : UInt8.ofNat (n % 65536) = UInt8.ofNat n := by
    apply UInt8.toNat_inj.mp
    simp only [UInt8.toNat_ofNat']
    omega
  have hhigh : UInt8.ofNat (n % 65536 / 256) = UInt8.ofNat (n / 256) := by
    apply UInt8.toNat_inj.mp
    simp only [UInt8.toNat_ofNat']
    omega
  rw [le16, le16, hlow, hhigh]

theorem barcodeBytes_eq (bc : Barcode) :
    barcodeBytes encode profile bc =
      (encode bc.symbology bc.payload).map fun m ↦ (askedCode profile bc m).flatMap Command.bytes := by
  unfold barcodeBytes
  congr 1
  funext m
  unfold askedCode
  split
  · simp [EscPos.nativeBarcode, EscPos.newline, Command.bytes, Setting.opening]
  · simp only [BitMatrix.packedRows, EscPos.raster, le16_mod, BitMatrix.length_rows, List.flatMap_cons,
      flatMap_askedLine, Command.bytes]

theorem opBytes_eq (align : Align) (op : Op) :
    opBytes encode profile align op = (askedOp encode profile align op).map (·.flatMap Command.bytes) := by
  cases op with
  | line l => simp only [opBytes, askedOp, Option.map_some, List.flatMap_append, flatMap_askedAlign,
      ← flatMap_askedText]
  | blank => rfl
  | barcode code label =>
    simp only [opBytes, askedOp, barcodeBytes_eq, Option.map_map, Function.comp_def, List.flatMap_append,
      flatMap_askedAlign, flatMap_askedLine]
  | finish =>
    simp only [opBytes, askedOp, Option.map_some, List.flatMap_append, flatMap_askedAlign]
    split_ifs <;> rfl

theorem opsBytes_eq (align : Align) (ops : List Op) :
    opsBytes encode profile align ops = (askedOps encode profile align ops).map (·.flatMap Command.bytes) := by
  induction ops generalizing align with
  | nil => rfl
  | cons op rest ih =>
    simp only [opsBytes, askedOps, opBytes_eq]
    cases askedOp encode profile align op with
    | none => rfl
    | some commands => simp [ih, Function.comp_def]

/-- The back end writes the commands that were asked for. -/
theorem escposBytes_eq (ops : List Op) :
    escposBytes encode profile ops = (askedCommands encode profile ops).map (·.flatMap Command.bytes) := by
  unfold escposBytes askedCommands
  rw [opsBytes_eq]
  cases askedOps encode profile .left ops with
  | none => rfl
  | some commands => cases profile.codepage <;> simp [EscPos.new, Codepage.escposNumber, Command.bytes, Setting.opening]

/-! ### What the printer reads back -/

/-- A code whose bytes are read back: the payload is one its own command takes, or the picture is small enough for
its header and the payload under it has no control characters. -/
def CodeSafe (profile : DeviceProfile) (bc : Barcode) (m : BitMatrix) : Prop :=
  match nativeKind profile bc with
  | some kind => kind.Takes (bc.payload.flatMap String.utf8EncodeChar)
  | none => (image profile bc m).bytesPerRow profile.paper.dots < 65536 ∧ (image profile bc m).height < 65536 ∧
      Printable bc.payload

/-- An operation whose bytes are read back. -/
def OpSafe (encode : Symbology → Text → Option BitMatrix) (profile : DeviceProfile) : Op → Prop
  | .line l => Printable l.text
  | .blank | .finish => True
  | .barcode code label => Printable label ∧ ∀ m ∈ encode code.symbology code.payload, CodeSafe profile code m

theorem sound_printed_iff (codepage : Codepage) (s : Text) :
    (∀ command ∈ printed codepage s, command.Sound) ↔ Printable s := by
  rw [← encode_printable_iff codepage s]
  simp [printed]

theorem sound_askedLine_iff (codepage : Codepage) (s : Text) :
    (∀ command ∈ askedLine codepage s, command.Sound) ↔ Printable s := by
  rw [askedLine, List.forall_mem_append, sound_printed_iff]
  simp

theorem sound_askedAlign (current want : Align) : ∀ command ∈ askedAlign current want, command.Sound := by
  unfold askedAlign
  split_ifs <;> simp

theorem sound_emphasis (l : TextLine) : ∀ command ∈ askedEmphasis l ++ askedPlain l, command.Sound := by
  unfold askedEmphasis askedPlain
  split_ifs <;> simp

theorem sound_askedCode_iff (bc : Barcode) (m : BitMatrix) :
    (∀ command ∈ askedCode profile bc m, command.Sound) ↔ CodeSafe profile bc m := by
  unfold askedCode CodeSafe
  split
  · simp
  · rw [List.forall_mem_cons, sound_askedLine_iff, Command.sound_raster_iff, BitMatrix.length_flatten_rows,
      and_iff_left rfl, and_assoc]

theorem sound_askedOp_iff {align : Align} {op : Op} {commands : List Command}
    (h : askedOp encode profile align op = some commands) :
    (∀ command ∈ commands, command.Sound) ↔ OpSafe encode profile op := by
  cases op with
  | line l =>
    simp only [askedOp, Option.some.injEq] at h
    subst h
    have hemphasis := List.forall_mem_append.mp (sound_emphasis l)
    rw [List.forall_mem_append, List.forall_mem_append, List.forall_mem_append, sound_askedLine_iff]
    exact ⟨fun h ↦ h.2.1.2, fun h ↦ ⟨sound_askedAlign _ _, ⟨hemphasis.1, h⟩, hemphasis.2⟩⟩
  | blank =>
    cases h
    simp [OpSafe]
  | barcode code label =>
    obtain ⟨m, hm, rfl⟩ := Option.map_eq_some_iff.mp h
    have halign := sound_askedAlign align .center
    rw [List.forall_mem_append, List.forall_mem_append, sound_askedLine_iff, sound_askedCode_iff]
    simp only [OpSafe, hm, Option.mem_def, Option.some.injEq, forall_eq']
    exact ⟨fun h ↦ ⟨h.1.2, h.2⟩, fun h ↦ ⟨⟨halign, h.1⟩, h.2⟩⟩
  | finish =>
    simp only [askedOp, Option.some.injEq] at h
    subst h
    have halign := sound_askedAlign align .left
    simp only [OpSafe, iff_true, List.forall_mem_append]
    refine ⟨halign, ?_⟩
    split_ifs <;> simp

theorem sound_askedOps_iff {align : Align} {ops : List Op} {commands : List Command}
    (h : askedOps encode profile align ops = some commands) :
    (∀ command ∈ commands, command.Sound) ↔ ∀ op ∈ ops, OpSafe encode profile op := by
  induction ops generalizing align commands with
  | nil =>
    cases h
    simp
  | cons op rest ih =>
    rw [askedOps] at h
    split at h
    · cases h
    · next first hfirst =>
      obtain ⟨more, hmore, rfl⟩ := Option.map_eq_some_iff.mp h
      rw [List.forall_mem_append, List.forall_mem_cons, sound_askedOp_iff hfirst, ih hmore]

theorem sound_askedCommands_iff {ops : List Op} {commands : List Command}
    (h : askedCommands encode profile ops = some commands) :
    (∀ command ∈ commands, command.Sound) ↔ ∀ op ∈ ops, OpSafe encode profile op := by
  obtain ⟨more, hmore, rfl⟩ := Option.map_eq_some_iff.mp h
  rw [List.forall_mem_append, sound_askedOps_iff hmore]
  apply and_iff_right
  cases profile.codepage <;> simp [Codepage.escposNumber]

/-- A plan has bytes where all of its codes can be drawn. -/
theorem askedOps_isSome_iff {align : Align} {ops : List Op} :
    (askedOps encode profile align ops).isSome ↔
      ∀ code label, Op.barcode code label ∈ ops → (encode code.symbology code.payload).isSome := by
  induction ops generalizing align with
  | nil => simp [askedOps]
  | cons op rest ih =>
    rw [askedOps]
    cases op with
    | line l => simp [askedOp, ih]
    | blank => simp [askedOp, ih]
    | finish => simp [askedOp, ih]
    | barcode code label =>
      cases hm : encode code.symbology code.payload with
      | none =>
        simp only [askedOp, hm, Option.map_none, Option.isSome_none, Bool.false_eq_true, List.mem_cons, false_iff]
        intro h
        simpa [hm] using h code label (.inl rfl)
      | some m =>
        simp only [askedOp, hm, Option.map_some, Option.isSome_map, ih, List.mem_cons, Op.barcode.injEq]
        constructor
        · rintro h other otherLabel (⟨rfl, rfl⟩ | hother)
          · simp [hm]
          · exact h other otherLabel hother
        · exact fun h other otherLabel hother ↦ h other otherLabel (.inr hother)

/-- Of every job and profile: the printer reads the bytes of the slip back as the commands and texts the layout asked
for exactly if, where all codes can be drawn, no text has a control character, every payload for a command of the
printer's own is one it takes, and every picture fits its header. -/
theorem escpos_reads_back_iff (encode : Symbology → Text → Option BitMatrix) (profile : DeviceProfile)
    (job : PrintJob) :
    (∀ bytes, escposBytes encode profile (plan job profile.columns (profile.slips.forKind job.kind)) = some bytes →
        decode readCommand bytes =
          askedCommands encode profile (plan job profile.columns (profile.slips.forKind job.kind))) ↔
      ((∀ code label, Op.barcode code label ∈ plan job profile.columns (profile.slips.forKind job.kind) →
          (encode code.symbology code.payload).isSome) →
        ∀ op ∈ plan job profile.columns (profile.slips.forKind job.kind), OpSafe encode profile op) := by
  generalize plan job profile.columns (profile.slips.forKind job.kind) = ops
  have hdrawn : (askedCommands encode profile ops).isSome ↔
      ∀ code label, Op.barcode code label ∈ ops → (encode code.symbology code.payload).isSome := by
    rw [askedCommands, Option.isSome_map]
    exact askedOps_isSome_iff
  rw [← hdrawn, escposBytes_eq]
  cases hasked : askedCommands encode profile ops with
  | none => simp
  | some commands =>
    simp only [Option.map_some, Option.some.injEq, forall_eq', Option.isSome_some, forall_const]
    rw [decode_commands_iff, sound_askedCommands_iff hasked]

/-- A receipt printer that takes ESC/POS, with everything else as it comes. -/
def receiptPrinter : DeviceProfile where
  paper := .mm80
  codepage := .utf8
  autoCutter := true
  output := .escPos
  slips := ⟨SlipLayout.task, SlipLayout.reminder⟩
  nativeSymbologies := [.code39, .code128]
  wideBarcodes := false

/-- A receipt of a task whose title is `A`, an escape and an at sign. -/
def resettingJob : PrintJob := { askingJob with title := ['A', Char.ofNat 0x1B, '@'], barcodes := [] }

/-- The title resets the printer: what is read back is not what was asked for. -/
theorem text_becomes_a_command :
    ¬ ∀ bytes, escposBytes (fun _ _ ↦ none) receiptPrinter
        (plan resettingJob receiptPrinter.columns (receiptPrinter.slips.forKind resettingJob.kind)) = some bytes →
      decode readCommand bytes = askedCommands (fun _ _ ↦ none) receiptPrinter
        (plan resettingJob receiptPrinter.columns (receiptPrinter.slips.forKind resettingJob.kind)) := by
  intro h
  have hdiffers : (escposBytes (fun _ _ ↦ none) receiptPrinter
        (plan resettingJob receiptPrinter.columns (receiptPrinter.slips.forKind resettingJob.kind))).any (fun bytes ↦
      decide (decode readCommand bytes ≠ askedCommands (fun _ _ ↦ none) receiptPrinter
        (plan resettingJob receiptPrinter.columns (receiptPrinter.slips.forKind resettingJob.kind)))) = true := by
    decide +kernel
  obtain ⟨bytes, hbytes, hread⟩ := (Option.any_eq_true _ _).mp hdiffers
  exact of_decide_eq_true hread (h bytes hbytes)

end Taskologic.Print
