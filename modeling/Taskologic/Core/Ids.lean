import Taskologic.Core.Text

/-!
# Base36 and short ids

A short id is six base36 digits, always printed uppercase. `ShortId` carries its length as an
invariant, so a value of another length cannot be built; `ShortId.parse` is the only way in from
text, and it reads back what `ShortId.asStr` prints (`ShortId.parse_asStr`). Short ids stand for the numbers
below `ShortId.space`, and a text names one in capitals or small letters and in no other way
(`ShortId.bijection`).

Scope. The row ids of the database and the user ids are natural numbers.
-/

set_option autoImplicit false
set_option relaxedAutoImplicit false

namespace Taskologic.Core

/-! ### Row ids -/

abbrev BoardId := ℕ
abbrev ColumnId := ℕ
abbrev TaskId := ℕ
abbrev TemplateId := ℕ
abbrev ProgramId := ℕ
abbrev RunId := ℕ

/-- A user of the system. -/
abbrev Uid := ℕ

/-! ### Base36 -/

/-- `BASE36_ALPHABET`: the digits in value order. -/
def base36Alphabet : Text := text "0123456789ABCDEFGHIJKLMNOPQRSTUVWXYZ"

/-- Value of a base36 digit. Lowercase is accepted because some scanners emit it. -/
def base36Value (c : Char) : Option (Fin 36) :=
  if h : 48 ≤ c.toNat ∧ c.toNat ≤ 57 then some ⟨c.toNat - 48, by omega⟩
  else if h : 65 ≤ c.toNat ∧ c.toNat ≤ 90 then some ⟨c.toNat - 65 + 10, by omega⟩
  else if h : 97 ≤ c.toNat ∧ c.toNat ≤ 122 then some ⟨c.toNat - 97 + 10, by omega⟩
  else none

/-- Uppercase base36 digit for a value below 36. -/
def base36Char (v : ℕ) : Option Char := base36Alphabet[v]?

/-- The digit of a value that is known to be below 36. -/
def base36Digit (v : Fin 36) : Char := base36Alphabet.get (v.cast (by decide))

theorem base36Char_val (v : Fin 36) : base36Char v.val = some (base36Digit v) := by
  revert v
  decide

@[simp] theorem base36Value_base36Digit (v : Fin 36) : base36Value (base36Digit v) = some v := by
  revert v
  decide

@[simp] theorem toUpper_base36Digit (v : Fin 36) : (base36Digit v).toUpper = base36Digit v := by
  revert v
  decide

/-- The characters with a value are the ASCII letters and digits, and their value is that of their capital. -/
theorem base36Value_eq_some_iff {c : Char} {v : Fin 36} :
    base36Value c = some v ↔ c.isAlphanum = true ∧ c.toUpper = base36Digit v := by
  by_cases hascii : c.toNat < 128
  · have hall : ∀ n < 128, ∀ v, base36Value (Char.ofNat n) = some v ↔
        (Char.ofNat n).isAlphanum = true ∧ (Char.ofNat n).toUpper = base36Digit v := by
      decide +kernel
    have hchar := hall c.toNat hascii v
    rwa [Char.ofNat_toNat] at hchar
  · have hvalue : base36Value c = none := by
      unfold base36Value
      split_ifs <;> first | omega | rfl
    have hletter : c.isAlphanum = false := by
      delta Char.isAlphanum Char.isAlpha Char.isUpper Char.isLower Char.isDigit
      simp [UInt32.le_iff_toNat_le]
      omega
    simp [hvalue, hletter]

/-- An uppercase character with a base36 value is the digit of that value. -/
theorem base36Digit_of_base36Value {c : Char} {v : Fin 36} (hv : base36Value c = some v)
    (hupper : c.toUpper = c) : base36Digit v = c :=
  (base36Value_eq_some_iff.mp hv).2.symm.trans hupper

theorem base36Digit_injective {v w : Fin 36} (h : base36Digit v = base36Digit w) : v = w := by
  have hvalue := congrArg base36Value h
  simpa using hvalue

/-- Base36 digits are single bytes. -/
@[simp] theorem utf8Size_base36Digit (v : Fin 36) : (base36Digit v).utf8Size = 1 := by
  revert v
  decide

theorem base36Digit_ne_of_base36Value_eq_none {c : Char} (hc : base36Value c = none)
    (v : Fin 36) : base36Digit v ≠ c := by
  rintro rfl
  simp at hc

theorem base36Value_toLower_base36Digit (v : Fin 36) : base36Value (base36Digit v).toLower = some v := by
  revert v
  decide

/-! ### Short ids -/

/-- Six character base36 task id, by its digits. -/
structure ShortId where
  digits : List (Fin 36)
  length_digits : digits.length = 6
  deriving DecidableEq, Repr

/-- Why a text is not a short id. -/
inductive ShortIdError where
  | wrongLength (got : ℕ)
  | badChar (c : Char)
  deriving DecidableEq, Repr

namespace ShortId

/-- `ShortId::LEN`. -/
def len : ℕ := 6

/-- `ShortId::SPACE`: the number of distinct short ids. -/
def space : ℕ := 36 ^ len

/-- Builds a short id from a number, reduced modulo `space`: its last digits, most significant
first. -/
def fromIndex (n : ℕ) : ShortId where
  digits := List.ofFn fun slot : Fin 6 ↦ Fin.ofNat 36 (n % space / 36 ^ (5 - slot.val))
  length_digits := List.length_ofFn

/-- The loop of `ShortId::parse`: reads digits until the sixth, failing on anything else. -/
def parseLoop (total : ℕ) (out : List (Fin 36)) : Text → Except ShortIdError (List (Fin 36))
  | [] => .ok out
  | c :: rest =>
    if out.length = len then .error (.wrongLength total)
    else
      match base36Value c with
      | none => .error (.badChar c)
      | some v => parseLoop total (out ++ [v]) rest

/-- Parses and normalises to uppercase. -/
def parse (s : Text) : Except ShortIdError ShortId :=
  match parseLoop s.length [] s with
  | .error e => .error e
  | .ok out => if h : out.length = 6 then .ok ⟨out, h⟩ else .error (.wrongLength out.length)

/-- The text form, always uppercase. -/
def asStr (id : ShortId) : Text := id.digits.map base36Digit

/-- `ShortId::index`: the number a short id is built from. -/
def index (id : ShortId) : ℕ :=
  id.asStr.foldl (fun acc b ↦ acc * 36 + (base36Value b).elim 0 Fin.val) 0

@[simp] theorem length_asStr (id : ShortId) : id.asStr.length = 6 := by
  rw [asStr, List.length_map, id.length_digits]

theorem parseLoop_map_base36Digit (total : ℕ) (out digits : List (Fin 36))
    (hlength : (out ++ digits).length ≤ 6) :
    parseLoop total out (digits.map base36Digit) = .ok (out ++ digits) := by
  induction digits generalizing out with
  | nil => simp [parseLoop]
  | cons v digits ih =>
    have hout : ¬ out.length = len := by
      simp only [List.length_append, List.length_cons, len] at hlength ⊢
      omega
    rw [List.map_cons, parseLoop, if_neg hout, base36Value_base36Digit]
    simpa using ih (out ++ [v]) (by simpa using hlength)

/-- A printed short id parses to itself. -/
@[simp] theorem parse_asStr (id : ShortId) : parse id.asStr = .ok id := by
  have hloop : parseLoop id.asStr.length [] id.asStr = .ok id.digits :=
    parseLoop_map_base36Digit _ [] id.digits (by simp [id.length_digits])
  rw [parse, hloop]
  simp [id.length_digits]

@[simp] theorem map_toUpper_asStr (id : ShortId) : id.asStr.map Char.toUpper = id.asStr := by
  simp [asStr, Function.comp_def]

/-- Characters outside the alphabet do not occur in a short id. -/
theorem not_mem_asStr {c : Char} (hc : base36Value c = none) (id : ShortId) : c ∉ id.asStr := by
  rw [asStr, List.mem_map]
  rintro ⟨v, -, hv⟩
  exact base36Digit_ne_of_base36Value_eq_none hc v hv

/-! ### Numbers and short ids -/

theorem digits_injective {id other : ShortId} (h : id.digits = other.digits) : id = other := by
  cases id
  cases other
  exact mk.injEq .. ▸ h

theorem index_eq_foldl (id : ShortId) : id.index = id.digits.foldl (fun acc v ↦ acc * 36 + v.val) 0 := by
  simp [index, asStr, List.foldl_map]

theorem exists_digits (id : ShortId) : ∃ a b c d e f : Fin 36, id.digits = [a, b, c, d, e, f] := by
  obtain ⟨digits, hlength⟩ := id
  match digits, hlength with
  | [a, b, c, d, e, f], _ => exact ⟨a, b, c, d, e, f, rfl⟩

theorem digits_fromIndex (n : ℕ) : (fromIndex n).digits =
    [Fin.ofNat 36 (n % space / 36 ^ 5), Fin.ofNat 36 (n % space / 36 ^ 4), Fin.ofNat 36 (n % space / 36 ^ 3),
      Fin.ofNat 36 (n % space / 36 ^ 2), Fin.ofNat 36 (n % space / 36 ^ 1), Fin.ofNat 36 (n % space / 36 ^ 0)] := rfl

/-- The number of the short id of a number is that number up to whole turns. -/
theorem index_fromIndex (n : ℕ) : (fromIndex n).index = n % space := by
  have hlt : n % space < 36 ^ 6 := Nat.mod_lt _ (by decide)
  rw [index_eq_foldl, digits_fromIndex]
  generalize n % space = m at hlt ⊢
  simp only [List.foldl_cons, List.foldl_nil, Fin.ofNat]
  omega

/-- A short id is that of its number. -/
theorem fromIndex_index (id : ShortId) : fromIndex id.index = id := by
  obtain ⟨a, b, c, d, e, f, hdigits⟩ := exists_digits id
  refine digits_injective ?_
  rw [digits_fromIndex, index_eq_foldl, hdigits]
  simp only [List.foldl_cons, List.foldl_nil, space, len, List.cons.injEq, Fin.ext_iff, Fin.val_ofNat, and_true]
  omega

/-! ### What is read as a short id -/

/-- The loop reads digits as long as there is room. -/
theorem parseLoop_eq_ok_iff {total : ℕ} {out result : List (Fin 36)} {s : Text} (hroom : out.length ≤ 6) :
    parseLoop total out s = .ok result ↔ ∃ values, List.Forall₂ (fun c v ↦ base36Value c = some v) s values ∧
      result = out ++ values ∧ result.length ≤ 6 := by
  induction s generalizing out with
  | nil =>
    simp only [parseLoop, Except.ok.injEq, List.forall₂_nil_left_iff, exists_eq_left, List.append_nil]
    constructor
    · rintro rfl
      exact ⟨rfl, hroom⟩
    · rintro ⟨rfl, -⟩
      rfl
  | cons c s ih =>
    rw [parseLoop]
    split_ifs with hfull
    · refine ⟨nofun, ?_⟩
      rintro ⟨values, hvalues, rfl, hle⟩
      have hlong := hvalues.length_eq
      have hout : out.length = 6 := hfull
      rw [List.length_append] at hle
      rw [List.length_cons] at hlong
      omega
    · have hout : out.length ≠ 6 := hfull
      cases hc : base36Value c with
      | none => simp [List.forall₂_cons_left_iff, hc]
      | some v =>
        have hmore : (out ++ [v]).length ≤ 6 := by
          rw [List.length_append, List.length_singleton]
          omega
        simp only [ih hmore, List.forall₂_cons_left_iff, hc, Option.some.injEq]
        constructor
        · rintro ⟨values, hvalues, rfl, hle⟩
          exact ⟨v :: values, ⟨v, values, rfl, hvalues, rfl⟩, by simp, hle⟩
        · rintro ⟨_, ⟨_, values, rfl, hvalues, rfl⟩, rfl, hle⟩
          exact ⟨values, hvalues, by simp, hle⟩

/-- A text is read as the short id of the values of its characters. -/
theorem parse_eq_ok_iff {s : Text} {id : ShortId} :
    parse s = .ok id ↔ List.Forall₂ (fun c v ↦ base36Value c = some v) s id.digits := by
  have hloop (out : List (Fin 36)) : parseLoop s.length [] s = .ok out ↔
      List.Forall₂ (fun c v ↦ base36Value c = some v) s out ∧ out.length ≤ 6 := by
    rw [parseLoop_eq_ok_iff (by simp)]
    simp
  constructor
  · intro h
    rw [parse] at h
    split at h
    · cases h
    · rename_i out hout
      split at h
      · rename_i hlength
        obtain rfl := Except.ok.inj h
        exact ((hloop out).mp hout).1
      · cases h
  · intro h
    rw [parse, (hloop id.digits).mpr ⟨h, id.length_digits.le⟩]
    simp [id.length_digits]

/-- Short ids and the numbers up to `space` are the same, and a text is read as a short id exactly when it is the text
of the id in capitals or small letters: six ASCII letters and digits. -/
theorem bijection :
    (∀ n, (fromIndex n).index = n % 36 ^ 6) ∧ (∀ id : ShortId, fromIndex id.index = id) ∧
      (∀ (id : ShortId) (s : Text), List.Forall₂ (fun c d ↦ c = d ∨ c = d.toLower) s id.asStr → parse s = .ok id) ∧
      ∀ (id : ShortId) (s : Text), parse s = .ok id ↔
        s.length = 6 ∧ (∀ c ∈ s, c.isAlphanum = true) ∧ toAsciiUppercase s = id.asStr := by
  refine ⟨index_fromIndex, fromIndex_index, fun id s hcases ↦ parse_eq_ok_iff.mpr ?_, fun id s ↦ ?_⟩
  · rw [asStr, List.forall₂_map_right_iff] at hcases
    refine hcases.imp fun c v hc ↦ ?_
    rcases hc with rfl | rfl
    · exact base36Value_base36Digit v
    · exact base36Value_toLower_base36Digit v
  · have hupper : List.Forall₂ (fun c v ↦ c.toUpper = base36Digit v) s id.digits ↔ toAsciiUppercase s = id.asStr := by
      rw [toAsciiUppercase, asStr, ← List.forall₂_eq_eq_eq, List.forall₂_map_left_iff, List.forall₂_map_right_iff]
    rw [parse_eq_ok_iff, ← hupper]
    simp only [base36Value_eq_some_iff, List.forall₂_and_left]
    exact ⟨fun h ↦ ⟨h.2.length_eq.trans id.length_digits, h⟩, fun h ↦ h.2⟩

/-- The short id of ten, typed in small letters. -/
theorem parse_of_small_letters : parse (text "00000a") = .ok (fromIndex 10) :=
  (bijection.2.2.2 (fromIndex 10) (text "00000a")).mpr
    ⟨by decide, List.all_eq_true.mp (by decide), by decide⟩

end ShortId

end Taskologic.Core
