import Taskologic.Core.Barcode
import Taskologic.Library.CheckDigit

/-!
# Payloads and their codes

A text is read as a payload exactly when, trimmed and in upper case, it is the code of that payload
(`ScanPayload.parse_eq_ok_iff`). So two payloads never share a code, and one wrong character behind
the magic is always seen: in the version, as a character outside base36, or by the check character
(`ScanPayload.parse_wrong_character`, `checkChar_catches_substitution`). Case is not a difference: a scanner may send small letters.
-/

set_option autoImplicit false
set_option relaxedAutoImplicit false

namespace Taskologic.Core

open Library

/-! ### Texts of base36 digits -/

/-- The text of some digit values. -/
def digitText (values : List (Fin 36)) : Text := values.map base36Digit

@[simp] theorem digitText_nil : digitText [] = [] := rfl

@[simp] theorem digitText_cons (v : Fin 36) (values : List (Fin 36)) :
    digitText (v :: values) = base36Digit v :: digitText values := rfl

@[simp] theorem digitText_append (values more : List (Fin 36)) :
    digitText (values ++ more) = digitText values ++ digitText more := List.map_append

@[simp] theorem mapM_base36Value_digitText (values : List (Fin 36)) :
    (digitText values).mapM base36Value = some values := by
  induction values with
  | nil => rfl
  | cons v values ih => simp [List.mapM_cons, ih]

/-- Text in upper case that has base36 digits only is the text of their values. -/
theorem exists_digitText {s : Text} (hupper : toAsciiUppercase s = s)
    (hdigits : ∀ c ∈ s, (base36Value c).isSome) : ∃ values, s = digitText values := by
  induction s with
  | nil => exact ⟨[], rfl⟩
  | cons c s ih =>
    obtain ⟨hc, hs⟩ := List.cons.inj hupper
    obtain ⟨v, hv⟩ := Option.isSome_iff_exists.mp (hdigits c List.mem_cons_self)
    obtain ⟨values, rfl⟩ := ih hs fun d hd ↦ hdigits d (List.mem_cons_of_mem _ hd)
    exact ⟨v :: values, by rw [digitText_cons, base36Digit_of_base36Value hv hc]⟩

theorem digitText_injective {values more : List (Fin 36)} (h : digitText values = digitText more) :
    values = more :=
  List.map_injective_iff.mpr (fun _ _ ↦ base36Digit_injective) h

/-- A character of a text of digits is a digit between digits. -/
theorem exists_of_digitText_eq {values : List (Fin 36)} {front back : Text} {c : Char}
    (h : front ++ c :: back = digitText values) :
    ∃ before v behind, values = before ++ v :: behind ∧ front = digitText before ∧
      c = base36Digit v ∧ back = digitText behind := by
  obtain ⟨before, rest, rfl, rfl, hrest⟩ := List.map_eq_append_iff.mp h.symm
  obtain ⟨v, behind, rfl, rfl, rfl⟩ := List.map_eq_cons_iff.mp hrest
  exact ⟨before, v, behind, rfl, rfl, rfl, rfl⟩

@[simp] theorem toAsciiUppercase_digitText (values : List (Fin 36)) :
    toAsciiUppercase (digitText values) = digitText values := by
  simp [toAsciiUppercase, digitText, Function.comp_def]

theorem isWhitespace_base36Digit (v : Fin 36) : isWhitespace (base36Digit v) = false := by
  revert v
  decide

theorem find?_digitText (values : List (Fin 36)) :
    ((digitText values).find? fun c ↦ (base36Value c).isNone) = none := by
  rw [List.find?_eq_none]
  intro c hc
  obtain ⟨v, -, rfl⟩ := List.mem_map.mp hc
  simp

theorem ShortId.asStr_eq_digitText (id : ShortId) : id.asStr = digitText id.digits := rfl

/-- Six digits are a short id. -/
theorem ShortId.parse_digitText {digits : List (Fin 36)} (hlength : digits.length = 6) :
    ShortId.parse (digitText digits) = .ok ⟨digits, hlength⟩ :=
  ShortId.parse_asStr ⟨digits, hlength⟩

/-! ### The check character -/

theorem mod3736Checksum_eq (values : List (Fin 36)) :
    mod3736Checksum values = CheckDigit.checksum checkMod (values.map Fin.val) := by
  rw [mod3736Checksum, CheckDigit.checksum, List.foldl_map]
  rfl

/-- The value of the check character of some digits. -/
def checkValue (values : List (Fin 36)) : Fin 36 :=
  ⟨CheckDigit.closing checkMod (mod3736Checksum values), CheckDigit.closing_lt (by decide) _⟩

theorem checkChar_digitText (values : List (Fin 36)) :
    checkChar (digitText values) = some (base36Digit (checkValue values)) := by
  rw [checkChar, mapM_base36Value_digitText, ← base36Char_val]
  rfl

/-- A check character is accepted when it is the one that is printed. -/
theorem verifyCheck_append_iff (values : List (Fin 36)) (check : Fin 36) :
    verifyCheck (digitText values ++ [base36Digit check]) = true ↔ check = checkValue values := by
  have htext : digitText values ++ [base36Digit check] = digitText (values ++ [check]) := by simp
  have hiff := CheckDigit.checksum_append_eq_one_iff (M := checkMod) (by decide) (by decide)
    check.isLt (values.map Fin.val)
  rw [verifyCheck, htext, mapM_base36Value_digitText]
  simp only [Bool.and_eq_true, beq_iff_eq, Bool.not_eq_true', List.isEmpty_eq_false_iff, ne_eq,
    List.append_eq_nil_iff, List.cons_ne_nil, and_false, not_false_eq_true, true_and,
    mod3736Checksum_eq, List.map_append, List.map_cons, List.map_nil, hiff, Fin.ext_iff, checkValue]

/-- Behind a wrong digit the check character is wrong, the check character included. -/
theorem verifyCheck_of_substitution {front back : List (Fin 36)} {v w : Fin 36} (hne : v ≠ w)
    (hcheck : verifyCheck (digitText (front ++ v :: back)) = true) :
    verifyCheck (digitText (front ++ w :: back)) = false := by
  have hchange := CheckDigit.checksum_ne_of_substitution (M := checkMod) (by decide) v.isLt w.isLt
    (fun h ↦ hne (Fin.ext h)) (front.map Fin.val) (back.map Fin.val)
  simp only [verifyCheck, mapM_base36Value_digitText, Bool.and_eq_true, beq_iff_eq,
    mod3736Checksum_eq, List.map_append, List.map_cons] at hcheck
  simp only [verifyCheck, mapM_base36Value_digitText, Bool.and_eq_false_iff, mod3736Checksum_eq,
    List.map_append, List.map_cons, beq_eq_false_iff_ne]
  exact .inr fun h ↦ hchange (hcheck.2.trans h.symm)

/-- In either case, a base36 text is checked by the values of its digits. -/
theorem verifyCheck_eq {s : Text} {values : List (Fin 36)} (h : s.mapM base36Value = some values) :
    verifyCheck s = verifyCheck (digitText values) := by
  rw [verifyCheck, verifyCheck, h, mapM_base36Value_digitText]

theorem checkChar_eq {s : Text} {values : List (Fin 36)} (h : s.mapM base36Value = some values) :
    checkChar s = some (base36Digit (checkValue values)) := by
  rw [← checkChar_digitText, checkChar, checkChar, h, mapM_base36Value_digitText]

/-- A text that is accepted has base36 digits only. -/
theorem exists_values_of_verifyCheck {s : Text} (h : verifyCheck s = true) :
    ∃ values, s.mapM base36Value = some values := by
  cases hvalues : s.mapM base36Value with
  | none => simp [verifyCheck, hvalues] at h
  | some values => exact ⟨values, rfl⟩

/-- The values of a text around one of its characters. -/
theorem mapM_base36Value_append_cons {front back : Text} {c : Char} {values : List (Fin 36)}
    (h : (front ++ c :: back).mapM base36Value = some values) :
    ∃ before v behind, front.mapM base36Value = some before ∧ base36Value c = some v ∧
      back.mapM base36Value = some behind ∧ values = before ++ v :: behind := by
  simp only [List.mapM_append, List.mapM_cons, Option.bind_eq_bind, Option.bind_eq_some_iff, Option.pure_def,
    Option.some.injEq] at h
  obtain ⟨before, hbefore, _, ⟨v, hv, behind, hbehind, rfl⟩, rfl⟩ := h
  exact ⟨before, v, behind, hbefore, hv, hbehind, rfl⟩

/-- A text with another digit in one place, when it is accepted with the first, is not. -/
theorem verifyCheck_of_replaced {front back : Text} {c other : Char}
    (hcheck : verifyCheck (front ++ c :: back) = true) (hother : base36Value other ≠ base36Value c) :
    verifyCheck (front ++ other :: back) = false := by
  obtain ⟨values, hvalues⟩ := exists_values_of_verifyCheck hcheck
  obtain ⟨before, v, behind, hfront, hv, hback, rfl⟩ := mapM_base36Value_append_cons hvalues
  rw [verifyCheck_eq hvalues] at hcheck
  cases hw : base36Value other with
  | none => simp [verifyCheck, List.mapM_append, List.mapM_cons, hfront, hw]
  | some w =>
    have hne : v ≠ w := fun hsame ↦ hother (by rw [hw, hv, hsame])
    have hreplaced : (front ++ other :: back).mapM base36Value = some (before ++ w :: behind) := by
      simp [List.mapM_append, List.mapM_cons, hfront, hw, hback]
    rw [verifyCheck_eq hreplaced]
    exact verifyCheck_of_substitution hne hcheck

/-- Every base36 text has a check character. With it the text is accepted, and with a digit of another value it is
not; and no text that is accepted stays so when one of its characters, the last included, is replaced by a digit of
another value. -/
theorem checkChar_catches_substitution :
    (∀ body : Text, (∀ c ∈ body, (base36Value c).isSome) →
      ∃ check, checkChar body = some check ∧ verifyCheck (body ++ [check]) = true ∧
        ∀ other, base36Value other ≠ base36Value check → verifyCheck (body ++ [other]) = false) ∧
    ∀ (front back : Text) (c : Char), verifyCheck (front ++ c :: back) = true →
      ∀ other, base36Value other ≠ base36Value c → verifyCheck (front ++ other :: back) = false := by
  refine ⟨fun body hdigits ↦ ?_, fun front back c hcheck other ↦ verifyCheck_of_replaced hcheck⟩
  obtain ⟨values, hvalues⟩ : ∃ values, body.mapM base36Value = some values := by
    rw [← Option.isSome_iff_exists]
    induction body with
    | nil => rfl
    | cons c body ih =>
      obtain ⟨hc, hbody⟩ := List.forall_mem_cons.mp hdigits
      obtain ⟨v, hv⟩ := Option.isSome_iff_exists.mp hc
      obtain ⟨values, hvalues⟩ := Option.isSome_iff_exists.mp (ih hbody)
      simp [List.mapM_cons, hv, hvalues]
  have hchecked : (body ++ [base36Digit (checkValue values)]).mapM base36Value =
      some (values ++ [checkValue values]) := by
    simp [List.mapM_append, List.mapM_cons, hvalues]
  have hverified : verifyCheck (body ++ [base36Digit (checkValue values)]) = true := by
    rw [verifyCheck_eq hchecked, digitText_append]
    exact (verifyCheck_append_iff values _).mpr rfl
  exact ⟨_, checkChar_eq hvalues, hverified, fun other ↦ verifyCheck_of_replaced hverified⟩

/-- A text in small letters has a check character, too. -/
theorem small_letters_are_checked : ∃ check, checkChar (text "1sk4m9q2") = some check ∧
    verifyCheck (text "1sk4m9q2" ++ [check]) = true := by
  obtain ⟨check, hcheck, hverified, -⟩ := checkChar_catches_substitution.1 (text "1sk4m9q2")
    (List.all_eq_true.mp (by decide))
  exact ⟨check, hcheck, hverified⟩

/-! ### Actions -/

/-- A choice is one of the answers a choice question can offer. -/
def ScanAction.InRange : ScanAction → Prop
  | choice n => 1 ≤ n ∧ n ≤ maxChoices
  | _ => True

/-- The base36 value of an action's character. -/
theorem ScanAction.exists_code_eq (action : ScanAction) : ∃ v, action.code = base36Digit v := by
  cases action with
  | choice n =>
    have hbound : max 1 (min n maxChoices) < 9 := by
      simp only [maxChoices]
      omega
    have hdigit : ∀ k < 9, ∃ v, Char.ofNat ('0'.toNat + k) = base36Digit v := by decide
    exact hdigit _ hbound
  | _ => decide

theorem ScanAction.fromCode_code {action : ScanAction} (haction : action.InRange) :
    fromCode action.code = some action := by
  cases action with
  | choice n =>
    obtain ⟨hlow, hhigh⟩ := haction
    simp only [maxChoices] at hhigh
    interval_cases n <;> decide
  | _ => decide

/-- An action is read from its own character in upper case. -/
theorem ScanAction.code_of_fromCode {c : Char} {action : ScanAction}
    (haction : fromCode c = some action) (hupper : c.toUpper = c) :
    action.code = c ∧ action.InRange := by
  simp only [fromCode, hupper] at haction
  split_ifs at haction with _ _ _ _ hchoice
  · cases haction
    exact ⟨by simp_all [code], trivial⟩
  · cases haction
    exact ⟨by simp_all [code], trivial⟩
  · cases haction
    exact ⟨by simp_all [code], trivial⟩
  · cases haction
    exact ⟨by simp_all [code], trivial⟩
  · cases haction
    have hdigit : ∀ n < 57, 49 ≤ n → (choice (n - 48)).code = Char.ofNat n := by decide
    refine ⟨?_, by simp only [InRange, maxChoices]; omega⟩
    rw [hdigit c.toNat (by omega) hchoice.1, Char.ofNat_toNat]
  · cases haction
    exact ⟨by simp_all [code], trivial⟩

namespace ScanPayload

/-! ### Codes -/

/-- The digits between the magic and the check character. -/
theorem exists_body_eq (payload : ScanPayload) :
    ∃ v, payload.action.code = base36Digit v ∧
      payload.body = digitText (1 :: v :: payload.shortId.digits) := by
  obtain ⟨v, hv⟩ := payload.action.exists_code_eq
  exact ⟨v, hv, by rw [body, hv, ShortId.asStr_eq_digitText]; rfl⟩

/-- Every payload has a code: the magic, its digits and their check character. -/
theorem encode_eq (payload : ScanPayload) :
    ∃ v, payload.action.code = base36Digit v ∧
      payload.encode = some (magic ++ version1 :: digitText (v :: (payload.shortId.digits ++
        [checkValue (1 :: v :: payload.shortId.digits)]))) := by
  obtain ⟨v, hv, hbody⟩ := payload.exists_body_eq
  refine ⟨v, hv, ?_⟩
  rw [encode, hbody, checkChar_digitText]
  simp only [Option.map_some, digitText_cons, digitText_append]
  rfl

/-- A code is what it is trimmed and in upper case. -/
theorem trim_encode {payload : ScanPayload} {code : Text} (hcode : payload.encode = some code) :
    toAsciiUppercase (trim code) = code := by
  obtain ⟨v, -, hencode⟩ := payload.encode_eq
  rw [hcode] at hencode
  cases hencode
  rw [trim_of_forall]
  · simp only [toAsciiUppercase, List.map_append, List.map_cons]
    exact congrArg (fun tail ↦ magic ++ version1 :: tail) (toAsciiUppercase_digitText _)
  · intro c hc
    simp only [List.mem_append, List.mem_cons] at hc
    rcases hc with hmagic | rfl | hdigit
    · obtain rfl : c = magicChar := by simpa [magic] using hmagic
      decide
    · decide
    · obtain ⟨w, -, rfl⟩ := List.mem_map.mp hdigit
      exact isWhitespace_base36Digit w

/-! ### Reading -/

section Reading

variable {raw : Text}

/-- The version is looked at first. -/
theorem parse_of_version_ne {version : Char} {rest : Text}
    (hraw : toAsciiUppercase (trim raw) = magic ++ version :: rest) (hversion : version ≠ version1) :
    parse raw = .error (.unknownVersion version) := by
  simp [parse, hraw, magic, magicLen, payloadLen, hversion]

/-- A list of at least two elements by its ends. -/
theorem exists_cons_concat {α : Type*} {s : List α} {n : ℕ} (hs : s.length = n + 2) :
    ∃ first middle last, middle.length = n ∧ s = first :: (middle ++ [last]) := by
  match s, hs with
  | first :: more, hs =>
    have hmore : more ≠ [] := by
      rintro rfl
      simp at hs
    exact ⟨first, more.dropLast, more.getLast hmore, by simp at hs ⊢; omega,
      by rw [List.dropLast_append_getLast]⟩

/-- What is left to look at in a text of the right length and version. -/
theorem parse_of_version {action check : Char} {id : Text} (hid : id.length = 6)
    (hraw : toAsciiUppercase (trim raw) = magic ++ version1 :: action :: (id ++ [check])) :
    parse raw =
      match (version1 :: action :: (id ++ [check])).find? fun c ↦ (base36Value c).isNone with
      | some c => .error (.badChar c)
      | none =>
        if ¬ verifyCheck (version1 :: action :: (id ++ [check])) then .error .badCheck
        else
          match ScanAction.fromCode action with
          | none => .error (.badAction action)
          | some action =>
            match ShortId.parse id with
            | .error (.badChar c) => .error (.badChar c)
            | .error (.wrongLength _) => .error (.truncated v1Len v1Len)
            | .ok shortId => .ok ⟨action, shortId⟩ := by
  have hmagic : magicLen ≤ v1Len ∧
      ((magic ++ version1 :: action :: (id ++ [check])).take magicLen).all (· == magicChar) := by
    simp [magic, magicLen, v1Len, ShortId.len]
  have hlength : (magic ++ version1 :: action :: (id ++ [check])).length = v1Len := by
    simp [magic, hid]
    rfl
  have htake : ((id ++ [check]).take ShortId.len) = id := by
    rw [show ShortId.len = id.length from hid.symm, List.take_left]
  simp only [parse, hraw, hlength]
  rw [if_neg (not_not.mpr hmagic)]
  simp only [magic, magicLen, List.cons_append, List.nil_append, List.getElem?_cons_succ,
    List.getElem?_cons_zero, payloadLen, if_true, lt_irrefl, if_false,
    List.drop_succ_cons, List.drop_zero, List.getD_cons_succ, List.getD_cons_zero, htake] <;> rfl

/-- A text that is read has the layout of a code. -/
theorem exists_layout {payload : ScanPayload} (hparse : parse raw = .ok payload) :
    ∃ action id check, id.length = 6 ∧
      toAsciiUppercase (trim raw) = magic ++ version1 :: action :: (id ++ [check]) := by
  rw [parse] at hparse
  simp only at hparse
  generalize toAsciiUppercase (trim raw) = chars at hparse
  split at hparse
  · cases hparse
  · rename_i hmagic
    split at hparse
    · cases hparse
    · rename_i version hversion
      split at hparse
      · cases hparse
      · rename_i expected hexpected
        split at hparse
        · cases hparse
        · split at hparse
          · cases hparse
          · obtain ⟨rfl, rfl⟩ : version = version1 ∧ v1Len = expected := by
              simpa [payloadLen] using hexpected
            have hlength : chars.length = 11 := by
              simp only [v1Len, magicLen, ShortId.len] at *
              omega
            obtain ⟨first, chars, rfl⟩ := List.exists_of_length_succ chars hlength
            obtain ⟨second, chars, rfl⟩ := List.exists_of_length_succ chars (Nat.succ.inj hlength)
            obtain ⟨third, tail, rfl⟩ :=
              List.exists_of_length_succ chars (Nat.succ.inj (Nat.succ.inj hlength))
            have htail : tail.length = 8 := by simpa using hlength
            obtain ⟨action, id, check, hid, rfl⟩ := exists_cons_concat htail
            simp only [magicLen, List.getElem?_cons_succ, List.getElem?_cons_zero,
              Option.some.injEq] at hversion
            simp only [magicLen, List.take_succ_cons, List.take_zero, List.all_cons, List.all_nil,
              Bool.and_eq_true, beq_iff_eq, not_not] at hmagic
            obtain ⟨-, rfl, rfl, -⟩ := hmagic
            refine ⟨action, id, check, hid, ?_⟩
            rw [hversion]
            rfl

/-- In a text of base36 digits the check character decides, then the action. -/
theorem parse_of_digits {v check : Fin 36} {digits : List (Fin 36)} (hlength : digits.length = 6)
    (hraw : toAsciiUppercase (trim raw) = magic ++ version1 :: digitText (v :: (digits ++ [check]))) :
    parse raw =
      if check ≠ checkValue (1 :: v :: digits) then .error .badCheck
      else
        match ScanAction.fromCode (base36Digit v) with
        | none => .error (.badAction (base36Digit v))
        | some action => .ok ⟨action, ⟨digits, hlength⟩⟩ := by
  have hid : (digitText digits).length = 6 := by simpa [digitText] using hlength
  have htext : version1 :: base36Digit v :: (digitText digits ++ [base36Digit check]) =
      digitText (1 :: v :: (digits ++ [check])) := by
    simp only [digitText_cons, digitText_append, digitText_nil]
    rfl
  have hverify : verifyCheck (digitText (1 :: v :: (digits ++ [check]))) = true ↔
      check = checkValue (1 :: v :: digits) := by
    rw [← verifyCheck_append_iff]
    simp
  rw [parse_of_version hid (by simpa using hraw), htext, find?_digitText]
  simp only [hverify, ShortId.parse_digitText hlength]

/-- A text is read as a payload exactly when, trimmed and in upper case, it is the payload's code. -/
theorem parse_eq_ok_iff {payload : ScanPayload} :
    parse raw = .ok payload ↔
      payload.action.InRange ∧ payload.encode = some (toAsciiUppercase (trim raw)) := by
  constructor
  · intro hparse
    obtain ⟨action, id, check, hid, hraw⟩ := exists_layout hparse
    have hupper : toAsciiUppercase (action :: (id ++ [check])) = action :: (id ++ [check]) := by
      have hall := toAsciiUppercase_toAsciiUppercase (trim raw)
      rw [hraw] at hall
      have hbehind : version1.toUpper :: toAsciiUppercase (action :: (id ++ [check])) =
          version1 :: action :: (id ++ [check]) := @List.append_cancel_left _ magic _ _ hall
      exact (List.cons.inj hbehind).2
    have hdigits : ∀ c ∈ action :: (id ++ [check]), (base36Value c).isSome := by
      rw [parse_of_version hid hraw] at hparse
      split at hparse
      · cases hparse
      · rename_i hnone
        intro c hc
        simpa [Option.isSome_iff_ne_none] using
          List.find?_eq_none.mp hnone c (List.mem_cons_of_mem _ hc)
    obtain ⟨values, hvalues⟩ := exists_digitText hupper hdigits
    have hcount : values.length = 8 := by
      have hsame := congrArg List.length hvalues
      simp only [List.length_cons, List.length_append, hid, digitText, List.length_map] at hsame
      exact hsame.symm
    obtain ⟨v, digits, check', hlength, rfl⟩ := exists_cons_concat hcount
    rw [hvalues] at hraw
    rw [parse_of_digits hlength hraw] at hparse
    split at hparse
    · cases hparse
    · rename_i hcheck
      rw [ne_eq, not_not] at hcheck
      split at hparse
      · cases hparse
      · rename_i read hread
        cases hparse
        obtain ⟨hcode, hrange⟩ := ScanAction.code_of_fromCode hread (toUpper_base36Digit v)
        obtain ⟨w, hw, hencode⟩ := encode_eq ⟨read, ⟨digits, hlength⟩⟩
        obtain rfl : v = w := base36Digit_injective (hcode.symm.trans hw)
        exact ⟨hrange, by rw [hencode, hraw, hcheck]⟩
  · rintro ⟨hrange, hcode⟩
    obtain ⟨v, hv, hencode⟩ := payload.encode_eq
    rw [hcode, Option.some.injEq] at hencode
    rw [parse_of_digits payload.shortId.length_digits hencode, ← hv,
      ScanAction.fromCode_code hrange]
    simp

end Reading

/-- The code of a payload in range is read back. -/
theorem parse_encode {payload : ScanPayload} (haction : payload.action.InRange) :
    ∃ code, payload.encode = some code ∧ parse code = .ok payload := by
  obtain ⟨v, -, hencode⟩ := payload.encode_eq
  exact ⟨_, hencode, parse_eq_ok_iff.mpr ⟨haction, by rw [trim_encode hencode, hencode]⟩⟩

/-- Payloads in range that have one code are one payload. -/
theorem encode_injective {payload other : ScanPayload} (haction : payload.action.InRange)
    (hother : other.action.InRange) (h : payload.encode = other.encode) : payload = other := by
  obtain ⟨code, hcode, hparse⟩ := parse_encode haction
  obtain ⟨code', hcode', hparse'⟩ := parse_encode hother
  obtain rfl : code = code' := Option.some.inj (by rw [← hcode, ← hcode', h])
  exact Except.ok.inj (hparse.symm.trans hparse')

/-- What one wrong character behind the magic is reported as. -/
def wrongCharacter (position : ℕ) (c : Char) : ScanParseError :=
  if position = magicLen then .unknownVersion c
  else if (base36Value c).isNone then .badChar c
  else .badCheck

/-- One wrong character behind the magic is always seen. -/
theorem parse_wrong_character {payload : ScanPayload} {front back raw : Text} {c d : Char}
    (hcode : payload.encode = some (front ++ c :: back)) (hfront : magicLen ≤ front.length)
    (hne : d ≠ c) (hraw : toAsciiUppercase (trim raw) = front ++ d :: back) :
    parse raw = .error (wrongCharacter front.length d) := by
  obtain ⟨v, -, hencode⟩ := payload.encode_eq
  rw [hcode, Option.some.injEq] at hencode
  obtain ⟨body, rfl⟩ : ∃ body, front = magic ++ body := by
    obtain ⟨body, hbody⟩ := List.prefix_of_prefix_length_le
      ⟨_, hencode.symm⟩ (List.prefix_append front (c :: back)) hfront
    exact ⟨body, hbody.symm⟩
  have hbody : body ++ c :: back = digitText (1 :: v :: (payload.shortId.digits ++
      [checkValue (1 :: v :: payload.shortId.digits)])) := by
    rw [List.append_assoc] at hencode
    exact List.append_cancel_left hencode
  have hcheck : verifyCheck (body ++ c :: back) = true := by
    rw [hbody, digitText_cons, digitText_cons, digitText_append]
    exact (verifyCheck_append_iff (1 :: v :: payload.shortId.digits) _).mpr rfl
  have hcount : (body ++ c :: back).length = 9 := by
    rw [hbody]
    simp [digitText, payload.shortId.length_digits]
  obtain ⟨values, w, others, hvalues, rfl, rfl, rfl⟩ := exists_of_digitText_eq hbody
  rw [List.append_assoc] at hraw
  cases values with
  | nil =>
    obtain rfl : 1 = w := (List.cons.inj hvalues).1
    exact parse_of_version_ne hraw hne
  | cons one values =>
    obtain rfl : 1 = one := (List.cons.inj hvalues).1
    have hbehind : (digitText values ++ d :: digitText others).length = 8 := by
      simpa [digitText] using hcount
    obtain ⟨action, id, check, hid, hlayout⟩ := exists_cons_concat hbehind
    have hwhole : digitText (1 :: values) ++ d :: digitText others =
        version1 :: action :: (id ++ [check]) := by
      rw [digitText_cons, List.cons_append, hlayout]
      rfl
    rw [parse_of_version hid (hraw.trans (congrArg (magic ++ ·) hwhole)), ← hwhole]
    have hposition : (magic ++ digitText (1 :: values)).length ≠ magicLen := by
      simp [magic, magicLen]
    rw [wrongCharacter, if_neg hposition]
    cases hd : base36Value d with
    | none =>
      rw [List.find?_append, find?_digitText, Option.none_or, List.find?_cons_of_pos (by simp [hd])]
      simp
    | some u =>
      have hmem : d ∈ toAsciiUppercase (trim raw) := by
        rw [hraw]
        simp
      obtain rfl := base36Digit_of_base36Value hd (toUpper_of_mem_toAsciiUppercase hmem)
      have hwrong : verifyCheck (digitText (1 :: values ++ u :: others)) = false :=
        verifyCheck_of_substitution (v := w) (fun h ↦ hne (by rw [h])) (by simpa using hcheck)
      have htext : digitText (1 :: values) ++ base36Digit u :: digitText others =
          digitText (1 :: values ++ u :: others) := by rw [digitText_append, digitText_cons u]
      rw [htext, find?_digitText]
      simp only [hwrong, Bool.false_eq_true, not_false_eq_true, if_true, Option.isNone_some, if_false]

/-- The codes and their texts: a payload's code is read back as the payload, a text is read as a
payload exactly when it is the payload's code up to case and white space around it, payloads do not
share codes, and a wrong character behind the magic is refused. -/
theorem codes_canonical :
    (∀ payload : ScanPayload, payload.action.InRange →
      ∃ code, payload.encode = some code ∧ parse code = .ok payload) ∧
    (∀ raw payload, parse raw = .ok payload →
      payload.action.InRange ∧ payload.encode = some (toAsciiUppercase (trim raw))) ∧
    (∀ payload other : ScanPayload, payload.action.InRange → other.action.InRange →
      payload.encode = other.encode → payload = other) ∧
    ∀ (payload : ScanPayload) (front back raw : Text) (c d : Char),
      payload.encode = some (front ++ c :: back) → magicLen ≤ front.length → d ≠ c →
        toAsciiUppercase (trim raw) = front ++ d :: back →
          parse raw = .error (wrongCharacter front.length d) :=
  ⟨fun _ ↦ parse_encode, fun _ _ ↦ parse_eq_ok_iff.mp, fun _ _ ↦ encode_injective,
    fun _ _ _ _ _ _ ↦ parse_wrong_character⟩

/-- A small letter in the place of its capital is read all the same. -/
theorem parse_small_letter : ¬ ∀ (payload : ScanPayload) (front back : Text) (c d : Char),
    payload.encode = some (front ++ c :: back) → magicLen ≤ front.length → d ≠ c →
      ∀ other, parse (front ++ d :: back) ≠ .ok other := by
  intro h
  exact h ⟨.startPause, ShortId.fromIndex 0⟩ (text "..1") (text "0000008") 'S' 's' (by decide +kernel)
    (by decide) (by decide) ⟨.startPause, ShortId.fromIndex 0⟩ (by decide +kernel)

end ScanPayload

end Taskologic.Core
