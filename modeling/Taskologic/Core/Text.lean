import Mathlib.Algebra.BigOperators.Group.List.Basic
import Mathlib.Data.List.DropRight
import Mathlib.Tactic
import Taskologic.Library.Unicode

/-!
# Text

The program's strings are lists of Unicode scalar values, which is what `char` and `str::chars`
give. The module holds the string operations of the standard library that the core uses: `trim`
with the Unicode `White_Space` property, case folding, replacement of a piece, the length in bytes of
the UTF-8 form, and parsing and printing of decimal numbers.

Scope. `String` and `str` are the same type here; borrowing has no meaning in the model.
-/

set_option autoImplicit false
set_option relaxedAutoImplicit false

namespace Taskologic.Core

/-- A string, as its characters. -/
abbrev Text := List Char

instance : LawfulBEq Text := inferInstanceAs (LawfulBEq (List Char))

/-- The characters of a literal. -/
abbrev text (literal : String) : Text := literal.toList

/-- `char::is_whitespace`: the characters with the Unicode property `White_Space`. -/
def isWhitespace (c : Char) : Bool :=
  let v := c.toNat
  (0x9 ≤ v && v ≤ 0xD) || v == 0x20 || v == 0x85 || v == 0xA0 || v == 0x1680 ||
    (0x2000 ≤ v && v ≤ 0x200A) || v == 0x2028 || v == 0x2029 || v == 0x202F || v == 0x205F ||
    v == 0x3000

/-- `str::trim`. -/
def trim (s : Text) : Text := (s.dropWhile isWhitespace).rdropWhile isWhitespace

/-- `str::to_ascii_uppercase`. -/
def toAsciiUppercase (s : Text) : Text := s.map Char.toUpper

/-- `str::to_lowercase`. -/
def toLowercase (s : Text) : Text := Library.lowercase s

/-- `str::eq_ignore_ascii_case`. -/
def eqIgnoreAsciiCase (s t : Text) : Bool := Library.eqIgnoreAsciiCase s t

/-- `str::contains` for a piece of text. -/
def contains (s piece : Text) : Bool := decide (piece <:+: s)

/-- What `replace` makes of the rest of a text after the characters it still has to drop, those of
the piece it has just replaced. -/
def replaceAfter (piece by_ : Text) : ℕ → Text → Text
  | _, [] => []
  | skip + 1, _ :: rest => replaceAfter piece by_ skip rest
  | 0, c :: rest =>
    if piece.isPrefixOf (c :: rest) then by_ ++ replaceAfter piece by_ (piece.length - 1) rest
    else c :: replaceAfter piece by_ 0 rest

/-- `str::replace`: every occurrence of a non-empty piece, from the left and without overlap. -/
def replace (s piece by_ : Text) : Text := replaceAfter piece by_ 0 s

/-- `str::len`: the length in bytes of the UTF-8 form. -/
def utf8Len (s : Text) : ℕ := (s.map Char.utf8Size).sum

/-- `str::strip_prefix`: what follows the given start, if the string has it. -/
def stripStart (start s : Text) : Option Text :=
  if start.isPrefixOf s then some (s.drop start.length) else none

/-- `str::parse` into an unsigned integer of `bits` bits: an optional plus sign and decimal digits,
at least one of them. -/
def parseUnsigned (bits : ℕ) (s : Text) : Option ℕ :=
  let digits := match s with
    | '+' :: rest => rest
    | _ => s
  if digits ≠ [] ∧ digits.all Char.isDigit ∧ Nat.ofDigitChars 10 digits 0 < 2 ^ bits then
    some (Nat.ofDigitChars 10 digits 0)
  else none

/-- An unsigned integer printed in decimal. -/
def decimal (n : ℕ) : Text := Nat.toDigits 10 n

/-! ### Trimming -/

theorem isWhitespace_toLower (c : Char) : isWhitespace c.toLower = isWhitespace c :=
  Library.apply_toLower (by decide +kernel) c

/-- A character is its own ASCII uppercase form unless it is one of the 26 small letters. -/
theorem toUpper_of_not_lower {c : Char} (hc : ¬ (97 ≤ c.toNat ∧ c.toNat ≤ 122)) : c.toUpper = c := by
  refine dif_neg fun hbounds ↦ hc ?_
  simpa [UInt32.le_iff_toNat_le] using hbounds

theorem toUpper_toUpper (c : Char) : c.toUpper.toUpper = c.toUpper := by
  by_cases hlower : 97 ≤ c.toNat ∧ c.toNat ≤ 122
  · have hletters : ∀ n < 128, (Char.ofNat n).toUpper.toUpper = (Char.ofNat n).toUpper := by
      decide +kernel
    have hchar := hletters c.toNat (by omega)
    rwa [Char.ofNat_toNat] at hchar
  · rw [toUpper_of_not_lower hlower, toUpper_of_not_lower hlower]

/-- No letter is white space. -/
theorem toUpper_of_isWhitespace {c : Char} (hc : isWhitespace c = true) : c.toUpper = c := by
  simp only [isWhitespace, Bool.or_eq_true, Bool.and_eq_true, decide_eq_true_eq, beq_iff_eq] at hc
  exact toUpper_of_not_lower (by omega)

theorem toAsciiUppercase_toAsciiUppercase (s : Text) :
    toAsciiUppercase (toAsciiUppercase s) = toAsciiUppercase s := by
  rw [toAsciiUppercase, toAsciiUppercase, List.map_map]
  exact List.map_congr_left fun c _ ↦ toUpper_toUpper c

theorem toUpper_of_mem_toAsciiUppercase {s : Text} {c : Char} (hc : c ∈ toAsciiUppercase s) :
    c.toUpper = c := by
  obtain ⟨d, -, rfl⟩ := List.mem_map.mp hc
  exact toUpper_toUpper d

/-- There is nothing to trim where there is no white space. -/
theorem trim_of_forall {s : Text} (hs : ∀ c ∈ s, isWhitespace c = false) : trim s = s := by
  have hfront : s.dropWhile isWhitespace = s := by
    cases s with
    | nil => rfl
    | cons c s => exact List.dropWhile_cons_of_neg (by simp [hs c List.mem_cons_self])
  rw [trim, hfront, List.rdropWhile_eq_self_iff]
  intro hne
  simp [hs _ (List.getLast_mem hne)]

theorem trim_trim (s : Text) : trim (trim s) = trim s := by
  have hfront : (trim s).dropWhile isWhitespace = trim s := by
    cases htrim : trim s with
    | nil => rfl
    | cons c rest =>
      have hstart : trim s <+: s.dropWhile isWhitespace := List.rdropWhile_prefix _ _
      rw [htrim] at hstart
      obtain ⟨more, hmore⟩ := hstart
      have hhead : (s.dropWhile isWhitespace).head? = some c := by rw [← hmore]; rfl
      refine List.dropWhile_cons_of_neg ?_
      have hnot := List.head?_dropWhile_not isWhitespace s
      rw [hhead] at hnot
      simpa using hnot
  rw [trim, hfront]
  exact List.rdropWhile_idempotent _ _

/-- Trimming does not see ASCII case. -/
theorem trim_map_toLower (s : Text) : trim (s.map Char.toLower) = (trim s).map Char.toLower := by
  have hsame : isWhitespace ∘ Char.toLower = isWhitespace := funext isWhitespace_toLower
  simp only [trim, List.dropWhile_map, List.rdropWhile, ← List.map_reverse, hsame]

/-- Texts that are one up to ASCII case are one after trimming and lowercasing. -/
theorem toLowercase_trim_eq {s t : Text} (h : eqIgnoreAsciiCase s t = true) :
    toLowercase (trim s) = toLowercase (trim t) := by
  apply Library.lowercase_eq_of_eqIgnoreAsciiCase
  have hmap : s.map Char.toLower = t.map Char.toLower := beq_iff_eq.mp h
  exact beq_iff_eq.mpr (by rw [← trim_map_toLower, ← trim_map_toLower, hmap])

/-- A text with a visible first character does not trim to nothing. -/
theorem trim_ne_nil {first : Char} {more : Text} (hfirst : isWhitespace first = false) :
    trim (first :: more) ≠ [] := by
  rw [trim, List.dropWhile_cons_of_neg (by simp [hfirst])]
  intro htrim
  have hall := List.rdropWhile_eq_nil_iff.mp htrim first List.mem_cons_self
  rw [hfirst] at hall
  cases hall

/-! ### Decimal numbers -/

theorem decimal_ne_nil (n : ℕ) : decimal n ≠ [] := Nat.toDigits_ne_nil

theorem isDigit_of_mem_decimal {n : ℕ} {c : Char} (hc : c ∈ decimal n) : c.isDigit :=
  Nat.isDigit_of_mem_toDigits (by decide) (by decide) hc

/-- A printed number has no sign in front. -/
theorem decimal_eq_cons (n : ℕ) : ∃ c rest, decimal n = c :: rest ∧ c.isDigit := by
  cases hdigits : decimal n with
  | nil => exact absurd hdigits (decimal_ne_nil n)
  | cons c rest =>
    exact ⟨c, rest, rfl, isDigit_of_mem_decimal (n := n) (by rw [hdigits]; exact List.mem_cons_self)⟩

/-- A number that fits is read back from its decimal form. -/
theorem parseUnsigned_decimal {bits n : ℕ} (hn : n < 2 ^ bits) :
    parseUnsigned bits (decimal n) = some n := by
  have hvalue : Nat.ofDigitChars 10 (decimal n) 0 = n := Nat.ofDigitChars_ten_toDigits
  have hall : (decimal n).all Char.isDigit = true :=
    List.all_eq_true.mpr fun c hc ↦ isDigit_of_mem_decimal hc
  obtain ⟨c, rest, hcons, hc⟩ := decimal_eq_cons n
  have hplus : c ≠ '+' := by
    rintro rfl
    exact absurd hc (by decide)
  have hdigits : (match decimal n with | '+' :: rest => rest | _ => decimal n) = decimal n := by
    rw [hcons]
    split
    · rename_i heq
      exact absurd (List.cons.inj heq).1 hplus
    · rfl
  unfold parseUnsigned
  rw [hdigits]
  simp only [ne_eq, decimal_ne_nil, not_false_eq_true, hall, hvalue, hn, and_self, if_true]

/-- A number that was read fits its width. -/
theorem lt_of_parseUnsigned {bits n : ℕ} {s : Text} (hn : parseUnsigned bits s = some n) :
    n < 2 ^ bits := by
  simp only [parseUnsigned, Option.ite_none_right_eq_some, Option.some.injEq] at hn
  obtain ⟨⟨-, -, hfits⟩, rfl⟩ := hn
  exact hfits

end Taskologic.Core
