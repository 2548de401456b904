import Taskologic.Core.Control

/-!
# Printing and parsing of control codes are inverse

`Control.Printable` is the set of commands that `Control.parseOne` can return on a token without
separators: column, choice and checklist numbers in range, repeated keys other than F keys, and a
key character that is not the separator. On it, `Control.parseOne` reads back what `Control.encode`
prints (`Control.parseOne_encode`), and nothing else is ever returned
(`yields_parseOne`).

The two lift to whole bodies. `WellFormed` says that all commands are printable and free text comes
last; every list `parseControls` returns is of that kind (`wellFormed_of_parseControls`) and is read
back from its printed form (`parseControls_encodeBody`).
-/

set_option autoImplicit false
set_option relaxedAutoImplicit false

namespace Taskologic.Core

open Library

/-! ### Printable commands -/

/-- A column a code can name: positions are 1 to 9. -/
def ColumnRef.InRange : ColumnRef → Prop
  | index n => 1 ≤ n ∧ n ≤ 9
  | _ => True

/-- Whether this is free text, which has to come last. -/
def Control.IsText : Control → Prop
  | value (.text _) => True
  | _ => False

/-- A command that its printed form leads back to. -/
def Control.Printable : Control → Prop
  | moveTo (some column) => column.InRange
  | set (.checklistItem n) => 1 ≤ n ∧ n ≤ 9
  | key c => c ≠ joinChar
  | named (.f n) => 1 ≤ n ∧ n ≤ 12
  | namedTimes (.f _) _ => False
  | namedTimes _ n => 1 ≤ n ∧ n ≤ 99
  | value (.plus n _) => n < 2 ^ 32
  | value (.minus n _) => n < 2 ^ 32
  | newFromTemplate _ column => column.InRange
  | newFromTemplateAsk _ column => column.InRange
  | _ => True

instance : DecidablePred ColumnRef.InRange := fun column ↦ by
  cases column <;> unfold ColumnRef.InRange <;> infer_instance

instance : DecidablePred Control.IsText := fun command ↦ by
  unfold Control.IsText
  split <;> infer_instance

instance : DecidablePred Control.Printable := fun command ↦ by
  unfold Control.Printable
  split <;> infer_instance

/-! ### Fixed words -/

theorem lookup_fixedCommands_of_length {t : Text} (ht : 4 < t.length) :
    fixedCommands.lookup t = none := by
  rw [List.lookup_eq_none_iff]
  have hlengths : ∀ word ∈ fixedCommands, word.1.length ≤ 4 := by decide
  intro word hword
  have := hlengths word hword
  simp only [bne_iff_ne, ne_eq]
  rintro rfl
  omega

theorem lookup_fixedCommands_of_digit {t : Text} {d : Char} (hd : d ∈ t) (hdigit : d.isDigit) :
    fixedCommands.lookup t = none := by
  rw [List.lookup_eq_none_iff]
  have hletters : ∀ word ∈ fixedCommands, word.1.any Char.isDigit = false := by decide
  intro word hword
  simp only [bne_iff_ne, ne_eq]
  rintro rfl
  have hany : word.1.any Char.isDigit = true := List.any_eq_true.mpr ⟨d, hd, hdigit⟩
  rw [hletters word hword] at hany
  cases hany

theorem printable_of_mem_fixedCommands {word : Text × Control} (hword : word ∈ fixedCommands) :
    word.2.Printable ∧ ¬ word.2.IsText := by
  revert word
  decide

/-! ### One command -/

theorem toUpper_of_isDigit {d : Char} (hd : d.isDigit) : d.toUpper = d := by
  have hdigit : d.toNat ≤ 57 := by
    simp only [Char.isDigit, Bool.and_eq_true, decide_eq_true_eq] at hd
    exact UInt32.le_iff_toNat_le.mp hd.2
  unfold Char.toUpper
  rw [dif_neg]
  rintro ⟨hlow, -⟩
  have : 97 ≤ d.toNat := UInt32.le_iff_toNat_le.mp hlow
  omega

@[simp] theorem toAsciiUppercase_decimal (n : ℕ) : toAsciiUppercase (decimal n) = decimal n := by
  rw [toAsciiUppercase]
  calc (decimal n).map Char.toUpper = (decimal n).map id :=
        List.map_congr_left fun d hd ↦ toUpper_of_isDigit (isDigit_of_mem_decimal hd)
    _ = decimal n := List.map_id _

@[simp] theorem toAsciiUppercase_cons (c : Char) (s : Text) :
    toAsciiUppercase (c :: s) = c.toUpper :: toAsciiUppercase s := rfl

@[simp] theorem toAsciiUppercase_append (s t : Text) :
    toAsciiUppercase (s ++ t) = toAsciiUppercase s ++ toAsciiUppercase t := List.map_append

@[simp] theorem toAsciiUppercase_nil : toAsciiUppercase [] = [] := rfl

@[simp] theorem toAsciiUppercase_asStr (id : ShortId) : toAsciiUppercase id.asStr = id.asStr :=
  id.map_toUpper_asStr

@[simp] theorem toAsciiUppercase_unit (unit : TimeUnit) :
    toAsciiUppercase unit.code = unit.code := by
  cases unit <;> decide

theorem ColumnRef.fromCode_code {column : ColumnRef} (hcolumn : column.InRange) :
    fromCode column.code = some column := by
  cases column with
  | index n =>
    obtain ⟨hlow, hhigh⟩ := hcolumn
    interval_cases n <;> decide
  | _ => decide

theorem ColumnRef.toUpper_code {column : ColumnRef} (hcolumn : column.InRange) :
    column.code.toUpper = column.code := by
  cases column with
  | index n =>
    obtain ⟨hlow, hhigh⟩ := hcolumn
    interval_cases n <;> decide
  | _ => decide

theorem ColumnRef.utf8Size_code {column : ColumnRef} (hcolumn : column.InRange) :
    column.code.utf8Size = 1 := by
  cases column with
  | index n =>
    obtain ⟨hlow, hhigh⟩ := hcolumn
    interval_cases n <;> decide
  | _ => decide

theorem TimeUnit.fromCode_code (unit : TimeUnit) : fromCode unit.code = some unit := by
  cases unit <;> decide

/-- A token that is neither text nor a key nor a fixed word is a command with an argument. -/
theorem Control.parseOne_eq_parseArgument {first second : Char} {more : Text} (hfirst : first ≠ 'V')
    (hK : first ≠ 'K') (hk : first ≠ 'k')
    (hlookup : fixedCommands.lookup (toAsciiUppercase (first :: second :: more)) = none) :
    parseOne (first :: second :: more) =
      parseArgument (first :: second :: more) (toAsciiUppercase (first :: second :: more)) := by
  have hstart : stripStart textStart (first :: second :: more) = none := by
    simp [stripStart, textStart, text, hfirst.symm]
  have hkey : keyToken (first :: second :: more) = none := by
    cases more <;> simp [keyToken, hK, hk]
  simp only [parseOne, hstart, hkey, hlookup]

theorem idAfter_append (token : Text) {a b : Char} (id : ShortId) :
    idAfter token [a, b] (a :: b :: id.asStr) = .ok id := by
  simp [idAfter, stripStart]

theorem parseTemplate_append (token : Text) {a b : Char} (id : ShortId) {column : ColumnRef}
    (hcolumn : column.InRange) (ask : Bool) :
    parseTemplate token (a :: b :: (id.asStr ++ [column.code])) ask =
      .ok (if ask then .newFromTemplateAsk id column else .newFromTemplate id column) := by
  simp [parseTemplate, ColumnRef.utf8Size_code hcolumn, ColumnRef.fromCode_code hcolumn]

theorem takeWhile_isDigit_decimal (n : ℕ) (unit : TimeUnit) :
    (decimal n ++ unit.code).takeWhile Char.isDigit = decimal n := by
  rw [List.takeWhile_append_of_pos fun d hd ↦ isDigit_of_mem_decimal hd]
  cases unit <;> simp [TimeUnit.code]

theorem parseOffset_append (sign : Char) {n : ℕ} (hn : n < 2 ^ 32) (unit : TimeUnit) :
    parseOffset (sign :: (decimal n ++ unit.code)) =
      some (.value (if sign = 'P' then .plus n unit else .minus n unit)) := by
  simp [parseOffset, takeWhile_isDigit_decimal, parseUnsigned_decimal hn, TimeUnit.fromCode_code]

@[simp] theorem utf8Len_cons (c : Char) (s : Text) : utf8Len (c :: s) = c.utf8Size + utf8Len s := by
  simp [utf8Len]

@[simp] theorem utf8Len_asStr (id : ShortId) : utf8Len id.asStr = 6 := by
  simp [utf8Len, ShortId.asStr, Function.comp_def, id.length_digits]

/-- A number behind a command makes it no fixed word. -/
theorem lookup_fixedCommands_decimal (first : Char) (s t : Text) (n : ℕ) :
    fixedCommands.lookup (first :: (s ++ decimal n ++ t)) = none := by
  obtain ⟨d, more, hdecimal, hdigit⟩ := decimal_eq_cons n
  exact lookup_fixedCommands_of_digit (d := d) (by simp [hdecimal]) hdigit

/-- A letter and a number is no named key, F apart. -/
theorem NamedKey.fromCode_cons_decimal {letter : Char} (hF : letter ≠ 'F') (n : ℕ) :
    fromCode (letter :: decimal n) = none := by
  obtain ⟨d, more, hdecimal, -⟩ := decimal_eq_cons n
  rw [hdecimal]
  unfold fromCode
  split <;> simp_all

theorem Control.parseOne_namedTimes {letter : Char} {k : NamedKey} {n : ℕ}
    (hletter : NamedKey.fromCode [letter] = some k) (hupper : letter.toUpper = letter)
    (hsize : letter.utf8Size = 1) (hF : letter ≠ 'F') (hlow : 1 ≤ n) (hhigh : n ≤ 99) :
    parseOne ('X' :: letter :: decimal n) = .ok (.namedTimes k n) := by
  have hlookup := lookup_fixedCommands_decimal 'X' [letter] [] n
  simp only [List.append_nil, List.cons_append, List.nil_append] at hlookup
  rw [parseOne_eq_parseArgument (by decide) (by decide) (by decide) (by simpa [hupper] using hlookup)]
  have hfits : n < 2 ^ 8 := by omega
  simp [parseArgument, hupper, NamedKey.fromCode_cons_decimal hF, hsize, parseNamedTimes,
    parseUnsigned_decimal hfits, Option.filter_some, hlow, hhigh, hletter]

theorem Control.parseOne_offset {sign : Char} (hsign : sign = 'P' ∨ sign = 'M') {n : ℕ}
    (hn : n < 2 ^ 32) (unit : TimeUnit) :
    parseOne (sign :: (decimal n ++ unit.code)) =
      .ok (.value (if sign = 'P' then .plus n unit else .minus n unit)) := by
  have hlookup := lookup_fixedCommands_decimal sign [] unit.code n
  have hupper : toAsciiUppercase (sign :: (decimal n ++ unit.code)) =
      sign :: (decimal n ++ unit.code) := by
    rcases hsign with rfl | rfl <;> simp
  have hoffset := parseOffset_append sign hn unit
  obtain ⟨d, more, hdecimal, hdigit⟩ := decimal_eq_cons n
  rw [hdecimal] at hlookup hupper hoffset ⊢
  simp only [List.cons_append] at hlookup hupper hoffset ⊢
  have hslip : SlipChoice.fromCode d = none := by
    simp only [SlipChoice.fromCode, List.find?_eq_none]
    intro slip _ hcode
    obtain rfl := beq_iff_eq.mp hcode
    cases slip <;> cases hdigit
  have hC : d ≠ 'C' := by
    rintro rfl
    cases hdigit
  rw [parseOne_eq_parseArgument (by rcases hsign with rfl | rfl <;> decide)
    (by rcases hsign with rfl | rfl <;> decide) (by rcases hsign with rfl | rfl <;> decide)
    (by rw [hupper]; exact hlookup), hupper]
  simp only [parseArgument, hC, hslip, hsign, hdigit, hoffset, Option.isSome_none, and_false,
    false_and, if_false, Bool.false_eq_true, and_self, if_true, Outcome.okOr_some]

/-- A command of two letters with a longer argument behind them is read by its arm alone. -/
theorem Control.parseOne_targeted (a b : Char) {argument : Text} {result : Control}
    (hletters : a ≠ 'V' ∧ a ≠ 'K' ∧ a ≠ 'k' ∧ a.toUpper = a ∧ b.toUpper = b)
    (hupper : toAsciiUppercase argument = argument) (hlength : 6 ≤ argument.length)
    (harm : parseArgument (a :: b :: argument) (a :: b :: argument) = .ok result) :
    parseOne (a :: b :: argument) = .ok result := by
  obtain ⟨hV, hK, hk, ha, hb⟩ := hletters
  have hsame : toAsciiUppercase (a :: b :: argument) = a :: b :: argument := by
    rw [toAsciiUppercase_cons, toAsciiUppercase_cons, ha, hb, hupper]
  rw [parseOne_eq_parseArgument hV hK hk, hsame]
  · exact harm
  · rw [hsame]
    refine lookup_fixedCommands_of_length ?_
    simp only [List.length_cons]
    omega

/-- What is printed for a command is read back as that command. -/
theorem Control.parseOne_encode {command : Control} (hcommand : command.Printable) :
    parseOne command.encode = .ok command := by
  cases command with
  | moveTo column =>
    cases column with
    | none => decide
    | some column =>
      cases column with
      | index n =>
        obtain ⟨hlow, hhigh⟩ := hcommand
        interval_cases n <;> decide
      | _ => decide
  | print slip => cases slip <;> decide
  | set field =>
    cases field with
    | checklistItem n =>
      obtain ⟨hlow, hhigh⟩ := hcommand
      interval_cases n <;> decide
    | _ => decide
  | «show» id =>
    cases id with
    | none => decide
    | some id =>
      have hlong : ¬ utf8Len ('S' :: 'H' :: id.asStr) ≤ 3 := by
        simp only [utf8Len_cons, utf8Len_asStr]
        omega
      exact parseOne_targeted 'S' 'H' (by decide) (by simp) (by simp)
        (by simp [parseArgument, text, idAfter_append, -utf8Len_cons, hlong])
  | key c => simp [encode, parseOne, stripStart, textStart, text, keyToken]
  | named k =>
    cases k with
    | f n =>
      obtain ⟨hlow, hhigh⟩ := hcommand
      interval_cases n <;> decide
    | _ => decide
  | namedTimes k n =>
    cases k with
    | f m => exact hcommand.elim
    | _ =>
      exact parseOne_namedTimes (by decide) (by decide) (by decide) (by decide) hcommand.1
        hcommand.2
  | search archive => cases archive <;> decide
  | value v =>
    cases v with
    | plus n unit => exact parseOne_offset (.inl rfl) hcommand unit
    | minus n unit => exact parseOne_offset (.inr rfl) hcommand unit
    | text t => simp [encode, Value.encode, parseOne, stripStart]
    | _ => decide
  | showBoard id =>
    exact parseOne_targeted 'G' 'B' (by decide) (by simp) (by simp)
      (by simp [parseArgument, text, idAfter_append])
  | analytics id =>
    exact parseOne_targeted 'G' 'A' (by decide) (by simp) (by simp)
      (by simp [parseArgument, text, idAfter_append])
  | startProgram id =>
    exact parseOne_targeted 'R' 'P' (by decide) (by simp) (by simp)
      (by simp [parseArgument, text, idAfter_append])
  | startProgramNow id =>
    exact parseOne_targeted 'R' 'N' (by decide) (by simp) (by simp)
      (by simp [parseArgument, text, idAfter_append])
  | newFromTemplate id column =>
    exact parseOne_targeted 'N' 'T' (by decide) (by simp [ColumnRef.toUpper_code hcommand]) (by simp)
      (by simp [parseArgument, parseTemplate_append _ id hcommand])
  | newFromTemplateAsk id column =>
    exact parseOne_targeted 'N' 'A' (by decide) (by simp [ColumnRef.toUpper_code hcommand]) (by simp)
      (by simp [parseArgument, parseTemplate_append _ id hcommand])
  | _ => decide

/-! ### What parsing returns -/

/-- A character that is a digit once uppercased is a digit already. -/
theorem eq_toUpper_of_toNat_lt {c : Char} (hc : c.toUpper.toNat < 65) : c.toUpper = c := by
  unfold Char.toUpper at hc ⊢
  split
  · rename_i hlower
    rw [dif_pos hlower] at hc
    have hsum : (c.val + ('A'.val - 'a'.val)).toNat < 65 := hc
    have hshift : ('A'.val - 'a'.val).toNat = 4294967264 := by decide
    have hlow : 97 ≤ c.val.toNat := UInt32.le_iff_toNat_le.mp hlower.1
    have hhigh : c.val.toNat ≤ 122 := UInt32.le_iff_toNat_le.mp hlower.2
    rw [UInt32.toNat_add] at hsum
    omega
  · rfl

theorem ColumnRef.inRange_of_fromCode {c : Char} {column : ColumnRef}
    (hcolumn : fromCode c = some column) : column.InRange := by
  unfold fromCode at hcolumn
  simp only at hcolumn
  split_ifs at hcolumn with _ _ _ _ hdigit
  all_goals obtain rfl := Option.some.inj hcolumn
  all_goals try trivial
  rw [eq_toUpper_of_toNat_lt (by omega)] at hdigit
  simp only [InRange]
  omega

theorem Field.printable_of_fromCode {s : Text} {field : Field} (hfield : fromCode s = some field) :
    (Control.set field).Printable := by
  unfold fromCode at hfield
  split at hfield
  all_goals first | (cases hfield; done) | skip
  all_goals try (obtain rfl := Option.some.inj hfield; trivial)
  split at hfield
  · obtain rfl := Option.some.inj hfield
    simp only [Control.Printable]
    omega
  · cases hfield

theorem NamedKey.printable_of_fromCode {s : Text} {k : NamedKey} (hk : fromCode s = some k) :
    (Control.named k).Printable := by
  unfold fromCode at hk
  split at hk
  all_goals try (obtain rfl := Option.some.inj hk; trivial)
  · split at hk
    · split at hk
      · obtain rfl := Option.some.inj hk
        assumption
      · cases hk
    · cases hk
  · cases hk

/-- A single letter names no F key. -/
theorem NamedKey.ne_f_of_fromCode {s : Text} {k : NamedKey} (hs : s.length ≤ 1)
    (hk : fromCode s = some k) (n : ℕ) : k ≠ .f n := by
  unfold fromCode at hk
  split at hk
  all_goals try (obtain rfl := Option.some.inj hk; exact NamedKey.noConfusion)
  · rename_i digits
    have hdigits : digits = [] := by
      simpa using hs
    subst hdigits
    simp [parseUnsigned] at hk
  · cases hk

theorem yields_parseOffset {sign d : Char} {more token : Text} :
    (Outcome.okOr (ControlError.unknownCommand token) (parseOffset (sign :: d :: more))).Yields
      fun command ↦ command.Printable ∧ ¬ command.IsText := by
  refine .okOr fun command hcommand ↦ ?_
  simp only [parseOffset, Option.bind_eq_bind, Option.bind_eq_some_iff] at hcommand
  obtain ⟨n, hn, unit, -, hcommand⟩ := hcommand
  cases hcommand
  have hfits := lt_of_parseUnsigned hn
  split
  · exact ⟨hfits, id⟩
  · exact ⟨hfits, id⟩

theorem yields_parseNamedTimes (token rest : Text) :
    (parseNamedTimes token rest).Yields fun command ↦ command.Printable ∧ ¬ command.IsText := by
  refine .bind fun n hn ↦ .bind fun k hk ↦ .ok ⟨?_, id⟩
  obtain ⟨-, hfilter⟩ := Option.filter_eq_some_iff.mp (Outcome.okOr_eq_ok.mp hn)
  have hrange : 1 ≤ n ∧ n ≤ 99 := by simpa using hfilter
  have hletter := NamedKey.ne_f_of_fromCode (by simp) (Outcome.okOr_eq_ok.mp hk)
  cases k with
  | f m => exact hletter m rfl
  | _ => exact hrange

theorem yields_parseTemplate (token t : Text) (ask : Bool) :
    (parseTemplate token t ask).Yields fun command ↦ command.Printable ∧ ¬ command.IsText := by
  simp only [parseTemplate]
  split
  · exact .err
  · refine .ite (fun _ ↦ .panicked) fun _ ↦ ?_
    split
    · exact .err
    · refine .bind fun column hcolumn ↦ .ok ?_
      have hrange := ColumnRef.inRange_of_fromCode (Outcome.okOr_eq_ok.mp hcolumn)
      cases ask
      · exact ⟨hrange, id⟩
      · exact ⟨hrange, id⟩

/-- The arms with an argument return printable commands, none of them text. -/
theorem yields_parseArgument (token t : Text) :
    (parseArgument token t).Yields fun command ↦ command.Printable ∧ ¬ command.IsText := by
  unfold parseArgument
  split
  · exact .err
  · exact .err
  rename_i first second more
  refine .ite (fun _ ↦ ?moveTo) fun _ ↦ .ite (fun _ ↦ ?print) fun _ ↦
    .ite (fun _ ↦ yields_parseOffset) fun _ ↦ .ite (fun _ ↦ ?set) fun _ ↦
    .ite (fun _ ↦ .bind fun _ _ ↦ .ok ⟨trivial, id⟩) fun _ ↦ .ite (fun _ ↦ ?named) fun _ ↦
    .ite (fun _ ↦ .bind fun _ _ ↦ .ok ⟨trivial, id⟩) fun _ ↦
    .ite (fun _ ↦ .bind fun _ _ ↦ .ok ⟨trivial, id⟩) fun _ ↦
    .ite (fun _ ↦ .bind fun _ _ ↦ .ok ⟨trivial, id⟩) fun _ ↦
    .ite (fun _ ↦ .bind fun _ _ ↦ .ok ⟨trivial, id⟩) fun _ ↦
    .ite (fun _ ↦ yields_parseTemplate token _ _) fun _ ↦ .err
  case moveTo =>
    split
    · exact .panicked
    · exact .bind fun column hcolumn ↦
        .ok ⟨ColumnRef.inRange_of_fromCode (Outcome.okOr_eq_ok.mp hcolumn), id⟩
  case print => exact .bind fun _ _ ↦ .ok ⟨trivial, id⟩
  case set =>
    exact .bind fun field hfield ↦
      .ok ⟨Field.printable_of_fromCode (Outcome.okOr_eq_ok.mp hfield), id⟩
  case named =>
    split
    · rename_i k hk
      exact .ok ⟨NamedKey.printable_of_fromCode hk, id⟩
    · exact .ite (fun _ ↦ yields_parseNamedTimes token _) fun _ ↦ .err

/-- A token that starts as text is text as a whole. -/
theorem Control.parseOne_of_isPrefixOf {token : Text} (htoken : textStart.isPrefixOf token) :
    parseOne token = .ok (.value (.text (token.drop textStart.length))) := by
  simp only [parseOne, stripStart, htoken, if_true]

/-- A token without separator that does not start as text is read as something printable that is not
text either. -/
theorem yields_parseOne {token : Text} (hjoin : joinChar ∉ token)
    (hstart : ¬ textStart.isPrefixOf token) :
    (Control.parseOne token).Yields fun command ↦ command.Printable ∧ ¬ command.IsText := by
  have hstrip : stripStart textStart token = none := by rw [stripStart, if_neg hstart]
  simp only [Control.parseOne, hstrip]
  split
  · rename_i c hc
    refine .ok ⟨?_, id⟩
    unfold keyToken at hc
    split at hc
    · split_ifs at hc
      cases hc
      rintro rfl
      simp at hjoin
    · cases hc
  split
  · rename_i command hlookup
    obtain ⟨before, after, hwords, -⟩ := List.lookup_eq_some_iff.mp hlookup
    have hword : (toAsciiUppercase token, command) ∈ fixedCommands := by simp [hwords]
    exact .ok (printable_of_mem_fixedCommands hword)
  · exact yields_parseArgument _ _

/-! ### Bodies -/

/-- A list of commands that its printed body leads back to: all printable, free text only last. -/
structure WellFormed (commands : List Control) : Prop where
  nonempty : commands ≠ []
  printable : ∀ command ∈ commands, command.Printable
  textLast : ∀ command ∈ commands.dropLast, ¬ command.IsText

theorem WellFormed.cons {command : Control} {commands : List Control} (hcommand : command.Printable)
    (htext : ¬ command.IsText) (hcommands : WellFormed commands) :
    WellFormed (command :: commands) where
  nonempty := List.cons_ne_nil _ _
  printable := by
    rintro other (_ | ⟨_, hother⟩)
    · exact hcommand
    · exact hcommands.printable other hother
  textLast := by
    rw [List.dropLast_cons_of_ne_nil hcommands.nonempty]
    rintro other (_ | ⟨_, hother⟩)
    · exact htext
    · exact hcommands.textLast other hother

/-- What comes behind the first of several commands is well formed, and the first is no text. -/
theorem WellFormed.tail {command : Control} {commands : List Control} (hrest : commands ≠ [])
    (hcommands : WellFormed (command :: commands)) : WellFormed commands ∧ ¬ command.IsText := by
  have hdropLast := hcommands.textLast
  rw [List.dropLast_cons_of_ne_nil hrest] at hdropLast
  exact ⟨⟨hrest, fun other hother ↦ hcommands.printable other (List.mem_cons_of_mem _ hother),
    fun other hother ↦ hdropLast other (List.mem_cons_of_mem _ hother)⟩,
    hdropLast command List.mem_cons_self⟩

theorem WellFormed.singleton (command : Control) (hcommand : command.Printable) :
    WellFormed [command] where
  nonempty := List.cons_ne_nil _ _
  printable := by simpa using hcommand
  textLast := by simp

/-- Whatever the loop of `parse` adds to the commands it has is a well-formed list. -/
theorem wellFormed_of_parseControlsLoop (out : List Control) (rest : Text) :
    (parseControlsLoop out rest).Yields fun commands ↦
      ∃ found, commands = out ++ found ∧ WellFormed found := by
  induction out, rest using parseControlsLoop.induct with
  | case1 out rest hstart =>
    rw [parseControlsLoop, if_pos hstart, Control.parseOne_of_isPrefixOf hstart]
    exact .ok ⟨_, rfl, .singleton _ trivial⟩
  | case2 out rest hstart i hfind ih =>
    rw [parseControlsLoop, if_neg hstart]
    split
    · rename_i j hj
      obtain rfl : j = i := by simpa [hj] using hfind
      obtain ⟨hi, -, hbefore⟩ := List.idxOf?_eq_some_iff.mp hj
      have hjoin : joinChar ∉ rest.take j := by
        rw [List.mem_take_iff_getElem]
        rintro ⟨k, hk, hget⟩
        exact hbefore k (by omega) hget
      have htake : ¬ textStart.isPrefixOf (rest.take j) := fun hscanner ↦ hstart <| by
        rw [List.isPrefixOf_iff_prefix] at hscanner ⊢
        exact hscanner.trans (List.take_prefix j rest)
      refine .bind fun command hcommand ↦ ?_
      obtain ⟨hprintable, htext⟩ := yields_parseOne hjoin htake command hcommand
      intro commands hcommands
      obtain ⟨found, rfl, hfound⟩ := ih command commands hcommands
      exact ⟨command :: found, by simp, .cons hprintable htext hfound⟩
    · rename_i hnone
      simp [hnone] at hfind
  | case3 out rest hstart hfind =>
    rw [parseControlsLoop, if_neg hstart]
    split
    · rename_i j hj
      simp [hj] at hfind
    · have hjoin : joinChar ∉ rest := List.idxOf?_eq_none_iff.mp hfind
      refine .bind fun command hcommand ↦ ?_
      exact .ok ⟨_, rfl, .singleton _ (yields_parseOne hjoin hstart command hcommand).1⟩

/-- Every list of commands that `parse` returns is well formed. -/
theorem wellFormed_of_parseControls {body : Text} {commands : List Control}
    (hparse : parseControls body = .ok commands) : WellFormed commands := by
  simp only [parseControls] at hparse
  split at hparse
  · cases hparse
  · obtain ⟨found, rfl, hfound⟩ := wellFormed_of_parseControlsLoop [] body commands hparse
    exact hfound

/-- A printed command starts with a visible character, and only text starts with a V. -/
theorem Control.exists_encode_eq_cons (command : Control) :
    ∃ first more, command.encode = first :: more ∧ isWhitespace first = false ∧
      (¬ command.IsText → first ≠ 'V') := by
  cases command with
  | moveTo column => cases column <;> exact ⟨_, _, rfl, by decide, fun _ ↦ by decide⟩
  | «show» id => cases id <;> exact ⟨_, _, rfl, by decide, fun _ ↦ by decide⟩
  | search archive => cases archive <;> exact ⟨_, _, rfl, by decide, fun _ ↦ by decide⟩
  | value v =>
    cases v with
    | text t => exact ⟨_, _, rfl, by decide, fun htext ↦ absurd trivial htext⟩
    | _ => exact ⟨_, _, rfl, by decide, fun _ ↦ by decide⟩
  | _ => exact ⟨_, _, rfl, by decide, fun _ ↦ by decide⟩

/-- A text of base36 digits only. -/
def isBase36 (s : Text) : Bool := s.all fun c ↦ (base36Value c).isSome

@[simp] theorem isBase36_cons (c : Char) (s : Text) :
    isBase36 (c :: s) = ((base36Value c).isSome && isBase36 s) := rfl

@[simp] theorem isBase36_append (s t : Text) : isBase36 (s ++ t) = (isBase36 s && isBase36 t) :=
  List.all_append

@[simp] theorem isBase36_asStr (id : ShortId) : isBase36 id.asStr = true := by
  simp [isBase36, ShortId.asStr]

@[simp] theorem isBase36_decimal (n : ℕ) : isBase36 (decimal n) = true := by
  refine List.all_eq_true.mpr fun d hd ↦ ?_
  have hdigit := isDigit_of_mem_decimal hd
  simp only [Char.isDigit, Bool.and_eq_true, decide_eq_true_eq] at hdigit
  have hlow : 48 ≤ d.toNat := UInt32.le_iff_toNat_le.mp hdigit.1
  have hhigh : d.toNat ≤ 57 := UInt32.le_iff_toNat_le.mp hdigit.2
  simp [base36Value, hlow, hhigh]

@[simp] theorem isBase36_unit (unit : TimeUnit) : isBase36 unit.code = true := by
  cases unit <;> decide

theorem ColumnRef.isSome_base36Value_code {column : ColumnRef} (hcolumn : column.InRange) :
    (base36Value column.code).isSome := by
  cases column with
  | index n =>
    obtain ⟨hlow, hhigh⟩ := hcolumn
    interval_cases n <;> decide
  | _ => decide

/-- Key commands and text apart, a printed command consists of base36 digits. -/
theorem Control.isBase36_encode {command : Control} (hcommand : command.Printable)
    (htext : ¬ command.IsText) (hkey : ∀ c, command ≠ key c) : isBase36 command.encode = true := by
  have hnil : isBase36 [] = true := rfl
  have hP : (base36Value 'P').isSome := by decide
  have hM : (base36Value 'M').isSome := by decide
  have hX : (base36Value 'X').isSome := by decide
  cases command with
  | moveTo column =>
    cases column with
    | none => decide
    | some column =>
      have hletters : isBase36 (text "MC") = true := by decide
      simp [encode, hletters, hnil, ColumnRef.isSome_base36Value_code hcommand]
  | print slip => cases slip <;> decide
  | set field =>
    cases field with
    | checklistItem n =>
      obtain ⟨hlow, hhigh⟩ := hcommand
      interval_cases n <;> decide
    | _ => decide
  | «show» id =>
    cases id with
    | none => decide
    | some id =>
      have hletters : isBase36 (text "SH") = true := by decide
      simp [encode, hletters]
  | key c => exact absurd rfl (hkey c)
  | named k =>
    cases k with
    | f n =>
      obtain ⟨hlow, hhigh⟩ := hcommand
      interval_cases n <;> decide
    | _ => decide
  | namedTimes k n =>
    cases k with
    | f m => exact hcommand.elim
    | _ => simp [encode, NamedKey.code, hX]; decide
  | search archive => cases archive <;> decide
  | value v =>
    cases v with
    | plus n unit => simp [encode, Value.encode, hP]
    | minus n unit => simp [encode, Value.encode, hM]
    | text t => exact absurd trivial htext
    | _ => decide
  | showBoard id =>
    have hletters : isBase36 (text "GB") = true := by decide
    simp [encode, hletters]
  | analytics id =>
    have hletters : isBase36 (text "GA") = true := by decide
    simp [encode, hletters]
  | startProgram id =>
    have hletters : isBase36 (text "RP") = true := by decide
    simp [encode, hletters]
  | startProgramNow id =>
    have hletters : isBase36 (text "RN") = true := by decide
    simp [encode, hletters]
  | newFromTemplate id column =>
    have hletters : isBase36 (text "NT") = true := by decide
    simp [encode, hletters, hnil, ColumnRef.isSome_base36Value_code hcommand]
  | newFromTemplateAsk id column =>
    have hletters : isBase36 (text "NA") = true := by decide
    simp [encode, hletters, hnil, ColumnRef.isSome_base36Value_code hcommand]
  | _ => decide

/-- A character outside base36 occurs in no command but the key command for it and text. -/
theorem Control.not_mem_encode {command : Control} (hcommand : command.Printable)
    (htext : ¬ command.IsText) {x : Char} (hx : base36Value x = none) (hkey : command ≠ key x) :
    x ∉ command.encode := by
  intro hmem
  by_cases hcommandKey : ∃ c, command = key c
  · obtain ⟨c, rfl⟩ := hcommandKey
    rcases List.mem_cons.mp hmem with rfl | hmem
    · exact absurd hx (by decide)
    · obtain rfl : x = c := by simpa using hmem
      exact hkey rfl
  · have hall := isBase36_encode hcommand htext (by simpa using hcommandKey)
    have hsome := List.all_eq_true.mp hall x hmem
    simp [hx] at hsome

/-- Nothing but free text prints a separator inside a command. -/
theorem Control.joinChar_not_mem_encode {command : Control} (hcommand : command.Printable)
    (htext : ¬ command.IsText) : joinChar ∉ command.encode := by
  refine not_mem_encode hcommand htext (by decide) ?_
  rintro rfl
  exact hcommand rfl

@[simp] theorem encodeBody_singleton (command : Control) :
    encodeBody [command] = command.encode := by
  simp [encodeBody, List.intercalate]

theorem encodeBody_cons {command : Control} {commands : List Control} (hcommands : commands ≠ []) :
    encodeBody (command :: commands) = command.encode ++ joinChar :: encodeBody commands := by
  cases commands with
  | nil => exact absurd rfl hcommands
  | cons next commands => simp [encodeBody, List.intercalate]

theorem not_isPrefixOf_encode_append {command : Control} (htext : ¬ command.IsText) (rest : Text) :
    ¬ textStart.isPrefixOf (command.encode ++ rest) := by
  obtain ⟨first, more, hencode, -, hfirst⟩ := command.exists_encode_eq_cons
  simp [hencode, textStart, text, (hfirst htext).symm]

/-- The last command of a body is read to the end. -/
theorem parseControlsLoop_encode (out : List Control) (command : Control)
    (hcommand : command.Printable) :
    parseControlsLoop out command.encode = .ok (out ++ [command]) := by
  rw [parseControlsLoop]
  by_cases htext : command.IsText
  · rw [if_pos, Control.parseOne_encode hcommand, Outcome.bind_ok]
    cases command with
    | value v =>
      cases v with
      | text t => simp [Control.encode, Value.encode]
      | _ => exact htext.elim
    | _ => exact htext.elim
  · have hstart := not_isPrefixOf_encode_append htext []
    rw [List.append_nil] at hstart
    rw [if_neg hstart]
    split
    · rename_i i hi
      have hjoin := Control.joinChar_not_mem_encode hcommand htext
      rw [List.idxOf?_eq_none_iff.mpr hjoin] at hi
      cases hi
    · rw [Control.parseOne_encode hcommand, Outcome.bind_ok]

/-- A command that is not text is read up to the separator behind it. -/
theorem parseControlsLoop_encode_append (out : List Control) {command : Control} (rest : Text)
    (hcommand : command.Printable) (htext : ¬ command.IsText) :
    parseControlsLoop out (command.encode ++ joinChar :: rest) =
      parseControlsLoop (out ++ [command]) rest := by
  have hjoin := Control.joinChar_not_mem_encode hcommand htext
  have hfind : (command.encode ++ joinChar :: rest).idxOf? joinChar = some command.encode.length := by
    rw [List.idxOf?_eq_some_iff]
    refine ⟨by simp, by simp, fun j hj hget ↦ hjoin ?_⟩
    rw [List.getElem_append_left hj] at hget
    exact hget ▸ List.getElem_mem hj
  rw [parseControlsLoop, if_neg (not_isPrefixOf_encode_append htext _)]
  split
  · rename_i i hi
    obtain rfl : command.encode.length = i := by simpa [hfind] using hi
    rw [List.take_left, Control.parseOne_encode hcommand, Outcome.bind_ok]
    congr 1
    simp
  · rename_i hnone
    simp [hfind] at hnone

/-- The loop of `parse` reads a printed body back. -/
theorem parseControlsLoop_encodeBody (out : List Control) {commands : List Control}
    (hcommands : WellFormed commands) :
    parseControlsLoop out (encodeBody commands) = .ok (out ++ commands) := by
  induction commands generalizing out with
  | nil => exact absurd rfl hcommands.nonempty
  | cons command commands ih =>
    have hcommand := hcommands.printable command List.mem_cons_self
    by_cases hlast : commands = []
    · subst hlast
      rw [encodeBody_singleton, parseControlsLoop_encode out command hcommand]
    · obtain ⟨hrest, htext⟩ := hcommands.tail hlast
      rw [encodeBody_cons hlast, parseControlsLoop_encode_append out _ hcommand htext,
        ih (out ++ [command]) hrest, List.append_assoc, List.singleton_append]

/-- A printed body has a visible first character. -/
theorem exists_encodeBody_eq_cons {commands : List Control} (hcommands : commands ≠ []) :
    ∃ first more, encodeBody commands = first :: more ∧ isWhitespace first = false := by
  cases commands with
  | nil => exact absurd rfl hcommands
  | cons command commands =>
    obtain ⟨first, more, hencode, hfirst, -⟩ := command.exists_encode_eq_cons
    by_cases hlast : commands = []
    · exact ⟨first, more, by rw [hlast, encodeBody_singleton, hencode], hfirst⟩
    · exact ⟨first, more ++ joinChar :: encodeBody commands,
        by rw [encodeBody_cons hlast, hencode, List.cons_append], hfirst⟩

/-- `parse` reads back the printed form of every well-formed list of commands. -/
theorem parseControls_encodeBody {commands : List Control} (hcommands : WellFormed commands) :
    parseControls (encodeBody commands) = .ok commands := by
  obtain ⟨first, more, hbody, hfirst⟩ := exists_encodeBody_eq_cons hcommands.nonempty
  have htrim : (trim (encodeBody commands)).isEmpty = false := by
    rw [hbody, List.isEmpty_eq_false_iff]
    exact trim_ne_nil hfirst
  rw [parseControls, htrim]
  exact parseControlsLoop_encodeBody [] hcommands

end Taskologic.Core
