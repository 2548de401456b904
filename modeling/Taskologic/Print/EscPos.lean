import Taskologic.Library.PrefixCode
import Taskologic.Print.Layout

/-!
# The printer's commands

The functions of `EscPos` are the encoders of the back end: bytes for a reset, for text, for a barcode. `Command` is
what a printer makes of the bytes, and `readCommand` takes one command off the front of a stream, the way the
printer does: a command that says how many bytes follow takes as many.

A command is read where it is written if it is `Sound` (`clear_of_sound`), and what is read is: printed bytes are no control
characters, barcode data is in the alphabet of its code and its length fits a byte, and the two sides of an image
fit sixteen bits each.

Scope. The reader knows the commands that the back end writes; a control character or a command that it does not
know has no reading.
-/

set_option autoImplicit false
set_option relaxedAutoImplicit false

namespace Taskologic.Print

open Library Core

/-! ### Code pages -/

def cp437 : List Char :=
  [ 'Ç', 'ü', 'é', 'â', 'ä', 'à', 'å', 'ç', 'ê', 'ë', 'è', 'ï', 'î', 'ì', 'Ä', 'Å', 'É', 'æ', 'Æ', 'ô', 'ö',
    'ò', 'û', 'ù', 'ÿ', 'Ö', 'Ü', '¢', '£', '¥', '₧', 'ƒ', 'á', 'í', 'ó', 'ú', 'ñ', 'Ñ', 'ª', 'º', '¿', '⌐',
    '¬', '½', '¼', '¡', '«', '»', '░', '▒', '▓', '│', '┤', '╡', '╢', '╖', '╕', '╣', '║', '╗', '╝', '╜', '╛',
    '┐', '└', '┴', '┬', '├', '─', '┼', '╞', '╟', '╚', '╔', '╩', '╦', '╠', '═', '╬', '╧', '╨', '╤', '╥', '╙',
    '╘', '╒', '╓', '╫', '╪', '┘', '┌', '█', '▄', '▌', '▐', '▀', 'α', 'ß', 'Γ', 'π', 'Σ', 'σ', 'µ', 'τ', 'Φ',
    'Θ', 'Ω', 'δ', '∞', 'φ', 'ε', '∩', '≡', '±', '≥', '≤', '⌠', '⌡', '÷', '≈', '°', '∙', '·', '√', 'ⁿ', '²',
    '■', '\u00a0' ]

def cp850 : List Char :=
  [ 'Ç', 'ü', 'é', 'â', 'ä', 'à', 'å', 'ç', 'ê', 'ë', 'è', 'ï', 'î', 'ì', 'Ä', 'Å', 'É', 'æ', 'Æ', 'ô', 'ö',
    'ò', 'û', 'ù', 'ÿ', 'Ö', 'Ü', 'ø', '£', 'Ø', '×', 'ƒ', 'á', 'í', 'ó', 'ú', 'ñ', 'Ñ', 'ª', 'º', '¿', '®',
    '¬', '½', '¼', '¡', '«', '»', '░', '▒', '▓', '│', '┤', 'Á', 'Â', 'À', '©', '╣', '║', '╗', '╝', '¢', '¥',
    '┐', '└', '┴', '┬', '├', '─', '┼', 'ã', 'Ã', '╚', '╔', '╩', '╦', '╠', '═', '╬', '¤', 'ð', 'Ð', 'Ê', 'Ë',
    'È', 'ı', 'Í', 'Î', 'Ï', '┘', '┌', '█', '▄', '¦', 'Ì', '▀', 'Ó', 'ß', 'Ô', 'Ò', 'õ', 'Õ', 'µ', 'þ', 'Þ',
    'Ú', 'Û', 'Ù', 'ý', 'Ý', '¯', '´', '\u00ad', '±', '‗', '¾', '¶', '§', '÷', '¸', '°', '¨', '·', '¹', '³',
    '²', '■', '\u00a0' ]

/-- CP850 with the euro sign in place of the dotless i. -/
def cp858 : List Char := cp850.set (0xD5 - 0x80) '€'

def wpc1252 : List Char :=
  [ '€', '\ufffd', '‚', 'ƒ', '„', '…', '†', '‡', 'ˆ', '‰', 'Š', '‹', 'Œ', '\ufffd', 'Ž', '\ufffd', '\ufffd',
    '‘', '’', '“', '”', '•', '–', '—', '˜', '™', 'š', '›', 'œ', '\ufffd', 'ž', 'Ÿ', '\u00a0', '¡', '¢', '£',
    '¤', '¥', '¦', '§', '¨', '©', 'ª', '«', '¬', '\u00ad', '®', '¯', '°', '±', '²', '³', '´', 'µ', '¶', '·',
    '¸', '¹', 'º', '»', '¼', '½', '¾', '¿', 'À', 'Á', 'Â', 'Ã', 'Ä', 'Å', 'Æ', 'Ç', 'È', 'É', 'Ê', 'Ë', 'Ì',
    'Í', 'Î', 'Ï', 'Ð', 'Ñ', 'Ò', 'Ó', 'Ô', 'Õ', 'Ö', '×', 'Ø', 'Ù', 'Ú', 'Û', 'Ü', 'Ý', 'Þ', 'ß', 'à', 'á',
    'â', 'ã', 'ä', 'å', 'æ', 'ç', 'è', 'é', 'ê', 'ë', 'ì', 'í', 'î', 'ï', 'ð', 'ñ', 'ò', 'ó', 'ô', 'õ', 'ö',
    '÷', 'ø', 'ù', 'ú', 'û', 'ü', 'ý', 'þ', 'ÿ' ]

namespace Codepage

/-- The number in `ESC t`. UTF-8 has no table to select. -/
def escposNumber : Codepage → Option UInt8
  | utf8 => none
  | cp437 => some 0
  | cp850 => some 2
  | wpc1252 => some 16
  | cp858 => some 19

def table : Codepage → Option (List Char)
  | utf8 => none
  | cp437 => some Print.cp437
  | cp850 => some Print.cp850
  | cp858 => some Print.cp858
  | wpc1252 => some Print.wpc1252

/-- One byte for one character: anything that is not in the table is a question mark. -/
def encodeChar (codepage : Codepage) (c : Char) : UInt8 :=
  if c.toNat < 128 then UInt8.ofNat c.toNat
  else if c = '\ufffd' then 0x3F
  else
    match codepage.table with
    | none => 0x3F
    | some table =>
      match table.idxOf? c with
      | some place => 0x80 + UInt8.ofNat place
      | none => 0x3F

def encode (codepage : Codepage) (s : Text) : List UInt8 :=
  match codepage with
  | utf8 => s.flatMap String.utf8EncodeChar
  | _ => s.map codepage.encodeChar

end Codepage

/-- A text without control characters. -/
def Printable (s : Text) : Prop := ∀ c ∈ s, 32 ≤ c.toNat

instance decidablePrintable (s : Text) : Decidable (Printable s) := inferInstanceAs (Decidable (∀ c ∈ s, 32 ≤ c.toNat))

theorem utf8EncodeChar_printable_iff (c : Char) :
    (∀ b ∈ String.utf8EncodeChar c, 0x20 ≤ b) ↔ 32 ≤ c.toNat := by
  have hbyte (n : ℕ) : (0x20 : UInt8) ≤ UInt8.ofNat n ↔ 32 ≤ n % 256 := by
    rw [UInt8.le_iff_toNat_le, UInt8.toNat_ofNat']
    rfl
  have hval : c.val.toNat = c.toNat := rfl
  unfold String.utf8EncodeChar
  simp only [hval]
  split_ifs with hone htwo hthree <;>
    · simp only [List.mem_cons, List.not_mem_nil, or_false, forall_eq_or_imp, forall_eq, hbyte]
      omega

theorem encodeChar_printable_iff (codepage : Codepage) (c : Char) : 0x20 ≤ codepage.encodeChar c ↔ 32 ≤ c.toNat := by
  have htable : ∀ table ∈ codepage.table, table.length = 128 := by cases codepage <;> simp [Codepage.table, cp437, cp850, cp858, wpc1252]
  unfold Codepage.encodeChar
  by_cases hascii : c.toNat < 128
  · rw [if_pos hascii, UInt8.le_iff_toNat_le, UInt8.toNat_ofNat', Nat.mod_eq_of_lt (by omega)]
    rfl
  · have hhigh : 32 ≤ c.toNat := by omega
    rw [if_neg hascii, iff_true_intro hhigh, iff_true]
    split_ifs
    · decide
    · split
      · decide
      · next table hcodepage =>
        split
        · next place hplace =>
          have hlength : place < 128 := by
            rw [← htable table hcodepage]
            exact (List.findIdx?_eq_some_iff_getElem.mp hplace).1
          rw [UInt8.le_iff_toNat_le, UInt8.toNat_add, UInt8.toNat_ofNat']
          have hbase : (0x80 : UInt8).toNat = 128 := rfl
          have hcontrol : (0x20 : UInt8).toNat = 32 := rfl
          omega
        · decide

/-- In every code page a text is printed exactly where it has no control character. -/
theorem encode_printable_iff (codepage : Codepage) (s : Text) :
    (∀ b ∈ codepage.encode s, 0x20 ≤ b) ↔ Printable s := by
  have hpage (hs : codepage.encode s = s.map codepage.encodeChar) :
      (∀ b ∈ codepage.encode s, 0x20 ≤ b) ↔ Printable s := by
    rw [hs, Printable]
    simp [encodeChar_printable_iff]
  cases codepage with
  | utf8 =>
    simp only [Codepage.encode, List.forall_mem_flatMap, utf8EncodeChar_printable_iff]
    rfl
  | cp437 | cp850 | cp858 | wpc1252 => exact hpage rfl

/-! ### The encoders -/

def esc : UInt8 := 0x1B

def gs : UInt8 := 0x1D

/-- Native barcode types. -/
inductive NativeBarcode where
  | code39
  | code128
  deriving DecidableEq, Repr

/-- The number of a type in `GS k` function B. -/
def NativeBarcode.number : NativeBarcode → UInt8
  | code39 => 69
  | code128 => 73

/-- What stands before the data: code set B is selected up front. -/
def NativeBarcode.start : NativeBarcode → List UInt8
  | code39 => []
  | code128 => [0x7B, 0x42]

/-- `u16::to_le_bytes`. -/
def le16 (n : ℕ) : List UInt8 := [UInt8.ofNat n, UInt8.ofNat (n / 256)]

namespace EscPos

/-- `EscPos::new`: a reset, then the code page if the character set needs one. -/
def new (codepage : Codepage) : List UInt8 :=
  [esc, 0x40] ++
    match codepage.escposNumber with
    | some n => [esc, 0x74, n]
    | none => []

def newline : List UInt8 := [0x0A]

def line (codepage : Codepage) (s : Text) : List UInt8 := codepage.encode s ++ newline

def feed (lines : UInt8) : List UInt8 := [esc, 0x64, lines]

def bold (on : Bool) : List UInt8 := [esc, 0x45, if on then 1 else 0]

/-- Character size multiplier, 1 to 8 each way. -/
def size (width height : ℕ) : List UInt8 :=
  let w := max 1 (min width 8) - 1
  let h := max 1 (min height 8) - 1
  [gs, 0x21, UInt8.ofNat (w * 16 + h)]

def align (a : Align) : List UInt8 :=
  [esc, 0x61, match a with
    | .left => 0
    | .center => 1
    | .right => 2]

/-- Partial cut after feeding the paper clear of the blade. -/
def cut : List UInt8 := feed 4 ++ [gs, 0x56, 1]

/-- One of the printer's own barcode commands, with the text printed underneath. -/
def nativeBarcode (kind : NativeBarcode) (data : Text) (height moduleWidth : UInt8) : List UInt8 :=
  let payload := kind.start ++ data.flatMap String.utf8EncodeChar
  [gs, 0x68, height] ++ [gs, 0x77, max 2 (min moduleWidth 6)] ++ [gs, 0x48, 2] ++
    [gs, 0x6B, kind.number, UInt8.ofNat payload.length] ++ payload ++ newline

/-- `GS v 0` raster bit image. -/
def raster (bytesPerRow : ℕ) (rows : List (List UInt8)) : List UInt8 :=
  [gs, 0x76, 0x30, 0] ++ le16 bytesPerRow ++ le16 rows.length ++ rows.flatten

end EscPos

/-! ### Commands -/

/-- What a command with one argument sets. -/
inductive Setting where
  | codepage
  | feed
  | bold
  | align
  | size
  | cut
  | barHeight
  | barWidth
  | barText
  deriving DecidableEq, Repr

/-- The two bytes a setting starts with. -/
def Setting.opening : Setting → UInt8 × UInt8
  | codepage => (esc, 0x74)
  | feed => (esc, 0x64)
  | bold => (esc, 0x45)
  | align => (esc, 0x61)
  | size => (gs, 0x21)
  | cut => (gs, 0x56)
  | barHeight => (gs, 0x68)
  | barWidth => (gs, 0x77)
  | barText => (gs, 0x48)

/-- The setting that starts with two bytes. -/
def Setting.ofOpening (lead letter : UInt8) : Option Setting :=
  [codepage, feed, bold, align, size, cut, barHeight, barWidth, barText].find? (·.opening == (lead, letter))

/-- What a printer makes of some bytes. -/
inductive Command where
  | init
  | set (setting : Setting) (n : UInt8)
  | barcode (kind : NativeBarcode) (data : List UInt8)
  | raster (bytesPerRow height : ℕ) (data : List UInt8)
  | newline
  | print (b : UInt8)
  deriving DecidableEq, Repr

/-- The bytes of a command, lengths and sizes cut to the width of their fields. -/
def Command.bytes : Command → List UInt8
  | init => [esc, 0x40]
  | set setting n => [setting.opening.1, setting.opening.2, n]
  | barcode kind data => [gs, 0x6B, kind.number, UInt8.ofNat (kind.start ++ data).length] ++ (kind.start ++ data)
  | raster bytesPerRow height data => [gs, 0x76, 0x30, 0] ++ le16 bytesPerRow ++ le16 height ++ data
  | newline => [0x0A]
  | print b => [b]

/-- A command with one argument. -/
def readSetting (lead letter : UInt8) : List UInt8 → Option (Command × List UInt8)
  | [] => none
  | n :: rest => (Setting.ofOpening lead letter).map fun setting ↦ (.set setting n, rest)

def readEsc : List UInt8 → Option (Command × List UInt8)
  | [] => none
  | letter :: rest => if letter = 0x40 then some (.init, rest) else readSetting esc letter rest

/-- The characters CODE39 has. -/
def isCode39 (b : UInt8) : Bool :=
  decide (0x30 ≤ b) && decide (b ≤ 0x39) || decide (0x41 ≤ b) && decide (b ≤ 0x5A) ||
    [0x20, 0x24, 0x25, 0x2A, 0x2B, 0x2D, 0x2E, 0x2F].contains b

/-- The character that switches code sets in the data of CODE128. -/
def brace : UInt8 := 0x7B

/-- The characters of code set B that stand for themselves. -/
def isSetB (b : UInt8) : Bool := decide (0x20 ≤ b) && decide (b < 0x80) && b != brace

/-- Data of CODE128 in code set B. A brace takes the byte after it with it, and only two of them are a character. -/
def readSetB : List UInt8 → Option (List UInt8)
  | [] => some []
  | [b] => if isSetB b then some [b] else none
  | b :: c :: rest =>
    if isSetB b then (readSetB (c :: rest)).map (b :: ·)
    else if b = brace ∧ c = brace then (readSetB rest).map (brace :: ·)
    else none

/-- The text of barcode data. -/
def NativeBarcode.read (kind : NativeBarcode) (data : List UInt8) : Option (List UInt8) :=
  match kind with
  | code39 => if data ≠ [] ∧ data.all isCode39 = true then some data else none
  | code128 => if data.take 2 = code128.start then readSetB (data.drop 2) else none

def NativeBarcode.ofNumber (m : UInt8) : Option NativeBarcode := [code39, code128].find? (·.number == m)

def readBarcode : List UInt8 → Option (Command × List UInt8)
  | m :: n :: rest =>
    match NativeBarcode.ofNumber m with
    | none => none
    | some kind =>
      if n.toNat ≤ rest.length then
        (kind.read (rest.take n.toNat)).map fun data ↦ (.barcode kind data, rest.drop n.toNat)
      else none
  | _ => none

def readRaster : List UInt8 → Option (Command × List UInt8)
  | function :: scale :: xL :: xH :: yL :: yH :: rest =>
    let x := xL.toNat + 256 * xH.toNat
    let y := yL.toNat + 256 * yH.toNat
    if function = 0x30 ∧ scale = 0 ∧ x * y ≤ rest.length then
      some (.raster x y (rest.take (x * y)), rest.drop (x * y))
    else none
  | _ => none

def readGs : List UInt8 → Option (Command × List UInt8)
  | [] => none
  | letter :: rest =>
    if letter = 0x6B then readBarcode rest
    else if letter = 0x76 then readRaster rest
    else readSetting gs letter rest

/-- One command off the front of a stream. -/
def readCommand : List UInt8 → Option (Command × List UInt8)
  | [] => none
  | b :: rest =>
    if b = esc then readEsc rest
    else if b = gs then readGs rest
    else if b = 0x0A then some (.newline, rest)
    else if b < 0x20 then none
    else some (.print b, rest)

example : readCommand [0x1D, 0x6B, 73, 4, 0x7B, 0x42, 0x41, 0x42, 0x0A] =
    some (.barcode .code128 [0x41, 0x42], [0x0A]) := by decide

/-! ### Sound commands -/

/-- The data can be drawn as it is. -/
def NativeBarcode.Takes (kind : NativeBarcode) (data : List UInt8) : Prop :=
  (kind.start ++ data).length < 256 ∧
    match kind with
    | code39 => data ≠ [] ∧ data.all isCode39 = true
    | code128 => data.all isSetB = true

/-- A command that the printer takes for itself. -/
def Command.Sound : Command → Prop
  | barcode kind data => kind.Takes data
  | raster bytesPerRow height data =>
    bytesPerRow < 65536 ∧ height < 65536 ∧ data.length = bytesPerRow * height
  | print b => 0x20 ≤ b
  | init | set _ _ | newline => True

namespace Command

@[simp] theorem sound_init : init.Sound := trivial

@[simp] theorem sound_set (setting : Setting) (n : UInt8) : (set setting n).Sound := trivial

@[simp] theorem sound_newline : newline.Sound := trivial

@[simp] theorem sound_print_iff {b : UInt8} : (print b).Sound ↔ 0x20 ≤ b := Iff.rfl

@[simp] theorem sound_barcode_iff {kind : NativeBarcode} {data : List UInt8} :
    (barcode kind data).Sound ↔ kind.Takes data := Iff.rfl

@[simp] theorem sound_raster_iff {bytesPerRow height : ℕ} {data : List UInt8} :
    (raster bytesPerRow height data).Sound ↔
      bytesPerRow < 65536 ∧ height < 65536 ∧ data.length = bytesPerRow * height := Iff.rfl

end Command

@[simp] theorem Setting.ofOpening_opening (setting : Setting) :
    ofOpening setting.opening.1 setting.opening.2 = some setting := by
  cases setting <;> decide

theorem toNat_le16 {n : ℕ} (hn : n < 65536) :
    (UInt8.ofNat n).toNat + 256 * (UInt8.ofNat (n / 256)).toNat = n := by
  simp only [UInt8.toNat_ofNat']
  omega

/-- What is read in code set B is at most as long as its bytes, and as long only if it is these bytes. -/
theorem length_readSetB {bytes data : List UInt8} (h : readSetB bytes = some data) :
    data.length ≤ bytes.length ∧ (data.length = bytes.length → data = bytes ∧ bytes.all isSetB = true) := by
  fun_induction readSetB bytes generalizing data with
  | case1 =>
    cases h
    simp
  | case2 b hb =>
    cases h
    simp [hb]
  | case3 => cases h
  | case4 b c rest hb ih =>
    obtain ⟨more, hmore, rfl⟩ := Option.map_eq_some_iff.mp h
    obtain ⟨hlength, hsame⟩ := ih hmore
    refine ⟨Nat.succ_le_succ hlength, fun heq ↦ ?_⟩
    obtain ⟨rfl, hall⟩ := hsame (Nat.succ_injective heq)
    exact ⟨rfl, by rw [List.all_cons, hb, hall, Bool.and_self]⟩
  | case5 b c rest hb hbraces ih =>
    obtain ⟨more, hmore, rfl⟩ := Option.map_eq_some_iff.mp h
    have hlength := (ih hmore).1
    simp only [List.length_cons]
    exact ⟨by omega, fun heq ↦ absurd heq (by omega)⟩
  | case6 => cases h

theorem readSetB_of_all {bytes : List UInt8} (h : bytes.all isSetB = true) : readSetB bytes = some bytes := by
  fun_induction readSetB bytes with
  | case1 => rfl
  | case2 => rfl
  | case3 b hb => simp [hb] at h
  | case4 b c rest hb ih =>
    rw [List.all_cons, Bool.and_eq_true] at h
    rw [ih h.2]
    rfl
  | case5 b c rest hb => simp [hb] at h
  | case6 b c rest hb => simp [hb] at h

/-- What is read of barcode data leaves out what stands before it. -/
theorem NativeBarcode.length_read {kind : NativeBarcode} {bytes data : List UInt8} (h : kind.read bytes = some data) :
    (kind.start ++ data).length ≤ bytes.length := by
  cases kind with
  | code39 =>
    simp only [NativeBarcode.read, Option.ite_none_right_eq_some, Option.some.injEq] at h
    obtain ⟨-, rfl⟩ := h
    exact le_refl _
  | code128 =>
    simp only [NativeBarcode.read, Option.ite_none_right_eq_some] at h
    obtain ⟨hstart, hread⟩ := h
    have hlength := (length_readSetB hread).1
    have htwo : (bytes.take 2).length = 2 := by rw [hstart]; rfl
    simp only [NativeBarcode.start, List.length_append, List.length_cons, List.length_nil, List.length_drop,
      List.length_take] at hlength htwo ⊢
    omega

/-- Data is read for itself exactly if its code can draw it as it is. -/
theorem NativeBarcode.read_start_append {kind : NativeBarcode} {data : List UInt8}
    (hlength : (kind.start ++ data).length < 256) :
    kind.read (kind.start ++ data) = some data ↔ kind.Takes data := by
  unfold NativeBarcode.Takes
  rw [and_iff_right hlength]
  cases kind with
  | code39 => simp [NativeBarcode.read, NativeBarcode.start]
  | code128 =>
    have hread : code128.read (code128.start ++ data) = readSetB data := rfl
    rw [hread]
    exact ⟨fun h ↦ ((length_readSetB h).2 rfl).2, readSetB_of_all⟩

@[simp] theorem NativeBarcode.ofNumber_number (kind : NativeBarcode) : ofNumber kind.number = some kind := by
  cases kind <;> decide

theorem readBarcode_bytes {kind : NativeBarcode} {data rest : List UInt8} (h : kind.Takes data) :
    readBarcode (kind.number :: UInt8.ofNat (kind.start ++ data).length :: (kind.start ++ data ++ rest)) =
      some (.barcode kind data, rest) := by
  have hlength : (UInt8.ofNat (kind.start ++ data).length).toNat = (kind.start ++ data).length := by
    rw [UInt8.toNat_ofNat']
    exact Nat.mod_eq_of_lt h.1
  have hread := (NativeBarcode.read_start_append h.1).mpr h
  generalize kind.start ++ data = payload at hlength hread ⊢
  simp [readBarcode, hlength, hread]

/-- Barcode data that is read for itself can be drawn as it is: its length was not cut. -/
theorem takes_of_readBarcode {kind : NativeBarcode} {data rest more : List UInt8}
    (h : readBarcode (kind.number :: UInt8.ofNat (kind.start ++ data).length :: (kind.start ++ data ++ rest)) =
      some (.barcode kind data, more)) : kind.Takes data := by
  simp only [readBarcode, NativeBarcode.ofNumber_number, Option.ite_none_right_eq_some, Option.map_eq_some_iff,
    Prod.mk.injEq, Command.barcode.injEq, true_and] at h
  obtain ⟨-, found, hread, rfl, -⟩ := h
  have hbound := NativeBarcode.length_read hread
  rw [UInt8.toNat_ofNat'] at hread hbound
  have hshort : (kind.start ++ found).length < 256 := by
    simp only [List.length_take] at hbound
    omega
  rw [Nat.mod_eq_of_lt hshort, List.take_left] at hread
  exact (NativeBarcode.read_start_append hshort).mp hread

theorem readCommand_set {setting : Setting} {n : UInt8} {rest : List UInt8} :
    readCommand (setting.opening.1 :: setting.opening.2 :: n :: rest) = some (.set setting n, rest) := by
  cases setting <;> rfl

theorem readRaster_bytes {bytesPerRow height : ℕ} {data rest : List UInt8} (hwidth : bytesPerRow < 65536)
    (hheight : height < 65536) (hdata : data.length = bytesPerRow * height) :
    readRaster (0x30 :: 0 :: (le16 bytesPerRow ++ le16 height ++ data ++ rest)) =
      some (.raster bytesPerRow height data, rest) := by
  simp only [readRaster, le16, List.cons_append, List.nil_append, toNat_le16 hwidth, toNat_le16 hheight, ← hdata]
  simp

/-- A byte is printed where it is no control character. -/
theorem readCommand_print {b : UInt8} {rest : List UInt8} (hb : 0x20 ≤ b) :
    readCommand (b :: rest) = some (.print b, rest) := by
  have hesc : b ≠ esc := by
    rintro rfl
    exact absurd hb (by decide)
  have hgs : b ≠ gs := by
    rintro rfl
    exact absurd hb (by decide)
  have hnewline : b ≠ 0x0A := by
    rintro rfl
    exact absurd hb (by decide)
  simp [readCommand, hesc, hgs, hnewline, UInt8.not_lt.mpr hb]

theorem clear_of_sound {command : Command} (h : command.Sound) : Clear Command.bytes readCommand command := by
  intro rest
  cases command with
  | init | newline => rfl
  | set setting n => exact readCommand_set
  | barcode kind data =>
    have hread : readBarcode (kind.number :: UInt8.ofNat (kind.start ++ data).length ::
        (kind.start ++ data ++ rest)) = some (.barcode kind data, rest) := readBarcode_bytes h
    simpa [readCommand, readGs, Command.bytes, esc, gs] using hread
  | raster bytesPerRow height data =>
    exact readRaster_bytes h.1 h.2.1 h.2.2
  | print b => exact readCommand_print h

/-- The sizes an image is read with were not cut. -/
theorem sound_of_readRaster {stream more data : List UInt8} {bytesPerRow height : ℕ}
    (h : readRaster stream = some (.raster bytesPerRow height data, more)) :
    (Command.raster bytesPerRow height data).Sound := by
  unfold readRaster at h
  split at h
  · next function scale xL xH yL yH rest =>
    simp only [Option.ite_none_right_eq_some, Option.some.injEq, Prod.mk.injEq, Command.raster.injEq] at h
    obtain ⟨⟨-, -, hlength⟩, ⟨rfl, rfl, rfl⟩, -⟩ := h
    have hxL := xL.toNat_lt
    have hxH := xH.toNat_lt
    have hyL := yL.toNat_lt
    have hyH := yH.toNat_lt
    refine ⟨by omega, by omega, ?_⟩
    rw [List.length_take]
    exact min_eq_left hlength
  · cases h

/-- A byte that is read as a printed one is no control character. -/
theorem sound_of_readCommand_print {b c : UInt8} {rest more : List UInt8}
    (h : readCommand (b :: rest) = some (.print c, more)) : 0x20 ≤ b ∧ c = b := by
  have hsetting (lead letter : UInt8) (stream : List UInt8) : readSetting lead letter stream ≠ some (.print c, more) := by
    cases stream <;> simp [readSetting]
  have hbarcode (stream : List UInt8) : readBarcode stream ≠ some (.print c, more) := by
    unfold readBarcode
    split
    · split
      · simp
      · split_ifs <;> simp
    · simp
  have hraster (stream : List UInt8) : readRaster stream ≠ some (.print c, more) := by
    unfold readRaster
    split <;> simp
  have hesc : readEsc rest ≠ some (.print c, more) := by
    cases rest with
    | nil => simp [readEsc]
    | cons letter rest =>
      simp only [readEsc]
      split_ifs
      · simp
      · exact hsetting _ _ _
  have hgs : readGs rest ≠ some (.print c, more) := by
    cases rest with
    | nil => simp [readGs]
    | cons letter rest =>
      simp only [readGs]
      split_ifs
      · exact hbarcode _
      · exact hraster _
      · exact hsetting _ _ _
  simp only [readCommand] at h
  split_ifs at h with hlead hlead' hnewline hcontrol
  · exact absurd h hesc
  · exact absurd h hgs
  · simp at h
  · simp only [Option.some.injEq, Prod.mk.injEq, Command.print.injEq] at h
    exact ⟨UInt8.not_lt.mp hcontrol, h.1.symm⟩

theorem sound_of_readCommand {command : Command} {rest more : List UInt8}
    (h : readCommand (command.bytes ++ rest) = some (command, more)) : command.Sound := by
  cases command with
  | init | newline | set => trivial
  | barcode kind data =>
    have hread : readBarcode (kind.number :: UInt8.ofNat (kind.start ++ data).length :: (kind.start ++ data ++ rest)) =
        some (.barcode kind data, more) := h
    exact takes_of_readBarcode hread
  | raster bytesPerRow height data =>
    have hread : readRaster (0x30 :: 0 :: (le16 bytesPerRow ++ le16 height ++ data ++ rest)) =
        some (.raster bytesPerRow height data, more) := h
    exact sound_of_readRaster hread
  | print b => exact (sound_of_readCommand_print h).1

/-- No command is made of nothing. -/
theorem length_lt_of_readCommand {stream more : List UInt8} {command : Command}
    (h : readCommand stream = some (command, more)) : more.length < stream.length := by
  have hsetting (lead letter : UInt8) (rest : List UInt8) (hread : readSetting lead letter rest = some (command, more)) :
      more.length ≤ rest.length := by
    cases rest with
    | nil => simp [readSetting] at hread
    | cons n rest =>
      simp only [readSetting, Option.map_eq_some_iff, Prod.mk.injEq] at hread
      obtain ⟨setting, -, -, rfl⟩ := hread
      simp
  have hbarcode (rest : List UInt8) (hread : readBarcode rest = some (command, more)) : more.length ≤ rest.length := by
    unfold readBarcode at hread
    split at hread
    · split at hread
      · cases hread
      · simp only [Option.ite_none_right_eq_some, Option.map_eq_some_iff, Prod.mk.injEq] at hread
        obtain ⟨-, data, -, -, rfl⟩ := hread
        simp only [List.length_drop, List.length_cons]
        omega
    · cases hread
  have hraster (rest : List UInt8) (hread : readRaster rest = some (command, more)) : more.length ≤ rest.length := by
    unfold readRaster at hread
    split at hread
    · simp only [Option.ite_none_right_eq_some, Option.some.injEq, Prod.mk.injEq] at hread
      obtain ⟨-, -, rfl⟩ := hread
      simp only [List.length_drop, List.length_cons]
      omega
    · cases hread
  cases stream with
  | nil => simp [readCommand] at h
  | cons b rest =>
    have hrest : more.length ≤ rest.length := by
      simp only [readCommand] at h
      split_ifs at h
      · cases rest with
        | nil => simp [readEsc] at h
        | cons letter rest =>
          simp only [readEsc] at h
          split_ifs at h
          · simp only [Option.some.injEq, Prod.mk.injEq] at h
            simp [← h.2]
          · exact le_trans (hsetting _ _ _ h) (Nat.le_succ _)
      · cases rest with
        | nil => simp [readGs] at h
        | cons letter rest =>
          simp only [readGs] at h
          split_ifs at h
          · exact le_trans (hbarcode _ h) (Nat.le_succ _)
          · exact le_trans (hraster _ h) (Nat.le_succ _)
          · exact le_trans (hsetting _ _ _ h) (Nat.le_succ _)
      · simp only [Option.some.injEq, Prod.mk.injEq] at h
        exact le_of_eq (congrArg List.length h.2.symm)
      · simp only [Option.some.injEq, Prod.mk.injEq] at h
        exact le_of_eq (congrArg List.length h.2.symm)
    exact Nat.lt_succ_of_le hrest

/-- The printer takes no command for itself that is not sound. -/
theorem candid_readCommand : Candid Command.bytes readCommand where
  clear _ _ _ h := clear_of_sound (sound_of_readCommand h)
  progress _ _ _ h := length_lt_of_readCommand h

/-- Commands are read back exactly where all of them are sound. -/
theorem decode_commands_iff {commands : List Command} :
    decode readCommand (commands.flatMap Command.bytes) = some commands ↔ ∀ command ∈ commands, command.Sound := by
  rw [decode_flatMap_iff candid_readCommand]
  exact forall₂_congr fun command _ ↦ ⟨fun h ↦ sound_of_readCommand (h []), clear_of_sound⟩

end Taskologic.Print
