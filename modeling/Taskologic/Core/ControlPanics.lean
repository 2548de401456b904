import Taskologic.Core.Control

/-!
# When reading a control code panics

A scanner or a keyboard can put any text between the delimiters of a frame. Of all the cuts the parser
makes, one is taken without looking: a template code is cut in front of its last byte, which is
inside a character when the last character takes more bytes than one (`splitsCharacter`). Nothing
else panics (`parseOne_eq_panicked_iff`), so a body is read to the end or refused exactly when every
such command has a command in front of it that is refused (`parseControls_ne_panicked_iff`).
-/

set_option autoImplicit false
set_option relaxedAutoImplicit false

namespace Taskologic.Core

open Library

/-! ### One command -/

/-- A template code whose last character takes more than one byte. -/
def splitsCharacter (token : Text) : Bool :=
  match toAsciiUppercase token with
  | first :: kind :: rest =>
    first == 'N' && (kind == 'T' || kind == 'A') && rest.getLast?.any (·.utf8Size != 1)
  | _ => false

theorem splitsCharacter_of_ne {first : Char} {rest token : Text}
    (htoken : toAsciiUppercase token = first :: rest) (hfirst : first ≠ 'N') :
    splitsCharacter token = false := by
  unfold splitsCharacter
  rw [htoken]
  cases rest <;> simp [hfirst]

theorem idAfter_ne_panicked (token start t : Text) : idAfter token start t ≠ .panicked := by
  unfold idAfter
  cases stripStart start t with
  | none => simp
  | some rest =>
    simp only [Outcome.okOr_some, Outcome.bind_ok]
    split <;> simp

theorem parseNamedTimes_ne_panicked (token rest : Text) :
    parseNamedTimes token rest ≠ .panicked := by
  unfold parseNamedTimes
  simp only
  cases (parseUnsigned 8 (rest.drop 1)).filter fun n ↦ 1 ≤ n ∧ n ≤ 99 with
  | none => simp
  | some n => exact (Outcome.bind_ok_eq_panicked_iff.not).mpr (Outcome.okOr_ne_panicked _ _)

/-- The arm of the template codes panics exactly on a last character of several bytes. -/
theorem parseTemplate_eq_panicked_iff (token t : Text) (ask : Bool) :
    parseTemplate token t ask = .panicked ↔ (t.drop 2).getLast?.any (·.utf8Size != 1) = true := by
  unfold parseTemplate
  simp only
  cases (t.drop 2).getLast? with
  | none => simp
  | some column =>
    by_cases hsize : column.utf8Size = 1
    · simp only [hsize, ne_eq, not_true_eq_false, if_false, Option.any_some, bne_self_eq_false,
        Bool.false_eq_true, iff_false]
      split
      · simp
      · exact (Outcome.bind_ok_eq_panicked_iff.not).mpr (Outcome.okOr_ne_panicked _ _)
    · simp [hsize]

/-- Three bytes, of which the first two characters take one each, leave one for a third. -/
theorem more_ne_nil {more : Text} (hlen : utf8Len ('M' :: 'C' :: more) = 3) : more ≠ [] := by
  rintro rfl
  exact absurd hlen (by decide)

/-- Behind the fixed words only the template codes can panic. -/
theorem parseArgument_eq_panicked_iff (token : Text) :
    parseArgument token (toAsciiUppercase token) = .panicked ↔ splitsCharacter token = true := by
  have hother : ∀ {first : Char} {rest : Text} {computation : Outcome ControlError Control},
      toAsciiUppercase token = first :: rest → first ≠ 'N' → computation ≠ .panicked →
        (computation = .panicked ↔ splitsCharacter token = true) := by
    intro first rest computation htoken hfirst hcomputation
    rw [splitsCharacter_of_ne htoken hfirst]
    simpa using hcomputation
  have hid : ∀ {start t : Text} {f : ShortId → Control},
      ((idAfter token start t).bind fun id ↦ .ok (f id)) ≠ .panicked :=
    (Outcome.bind_ok_eq_panicked_iff.not).mpr (idAfter_ne_panicked _ _ _)
  cases htoken : toAsciiUppercase token with
  | nil => simp [parseArgument, splitsCharacter, htoken]
  | cons first rest =>
    cases rest with
    | nil => simp [parseArgument, splitsCharacter, htoken]
    | cons second more =>
      unfold parseArgument
      refine Outcome.ite_eq_panicked_iff ?move fun _ ↦ ?_
      case move =>
        rintro ⟨rfl, rfl, hlen⟩
        cases more with
        | nil => exact absurd rfl (more_ne_nil hlen)
        | cons c more =>
          exact hother htoken (by decide)
            ((Outcome.bind_ok_eq_panicked_iff.not).mpr (Outcome.okOr_ne_panicked _ _))
      refine Outcome.ite_eq_panicked_iff ?slip fun _ ↦ ?_
      case slip =>
        rintro ⟨rfl, -⟩
        exact hother htoken (by decide)
          ((Outcome.bind_ok_eq_panicked_iff.not).mpr (Outcome.okOr_ne_panicked _ _))
      refine Outcome.ite_eq_panicked_iff ?offset fun _ ↦ ?_
      case offset =>
        rintro ⟨rfl | rfl, -⟩
        · exact hother htoken (by decide) (Outcome.okOr_ne_panicked _ _)
        · exact hother htoken (by decide) (Outcome.okOr_ne_panicked _ _)
      refine Outcome.ite_eq_panicked_iff ?field fun _ ↦ ?_
      case field =>
        rintro ⟨rfl, -⟩
        exact hother htoken (by decide)
          ((Outcome.bind_ok_eq_panicked_iff.not).mpr (Outcome.okOr_ne_panicked _ _))
      refine Outcome.ite_eq_panicked_iff ?shown fun _ ↦ ?_
      case shown =>
        rintro ⟨rfl, -⟩
        exact hother htoken (by decide) hid
      refine Outcome.ite_eq_panicked_iff ?key fun _ ↦ ?_
      case key =>
        rintro rfl
        refine hother htoken (by decide) ?_
        split
        · simp
        · split
          · exact parseNamedTimes_ne_panicked _ _
          · simp
      refine Outcome.ite_eq_panicked_iff ?board fun _ ↦ ?_
      case board =>
        rintro ⟨rfl, -⟩
        exact hother htoken (by decide) hid
      refine Outcome.ite_eq_panicked_iff ?analytics fun _ ↦ ?_
      case analytics =>
        rintro ⟨rfl, -⟩
        exact hother htoken (by decide) hid
      refine Outcome.ite_eq_panicked_iff ?start fun _ ↦ ?_
      case start =>
        rintro ⟨rfl, -⟩
        exact hother htoken (by decide) hid
      refine Outcome.ite_eq_panicked_iff ?now fun _ ↦ ?_
      case now =>
        rintro ⟨rfl, -⟩
        exact hother htoken (by decide) hid
      refine Outcome.ite_eq_panicked_iff ?template fun hno ↦ ?_
      case template =>
        rintro ⟨rfl, hkind⟩
        rw [parseTemplate_eq_panicked_iff]
        simp [splitsCharacter, htoken, hkind]
      simp only [reduceCtorEq, splitsCharacter, htoken, Bool.and_eq_true, beq_iff_eq,
        Bool.or_eq_true, false_iff]
      exact fun h ↦ hno h.1

/-- A template code is neither free text nor a key nor one of the fixed words, so it is read as a
command with an argument. -/
theorem parseOne_eq_panicked_iff (token : Text) :
    Control.parseOne token = .panicked ↔ splitsCharacter token = true := by
  have hsplits : ∀ {start : Char} {rest : Text}, token = start :: rest → start.toUpper ≠ 'N' →
      splitsCharacter token ≠ true := by
    rintro start rest rfl hstart
    have hupper : toAsciiUppercase (start :: rest) = start.toUpper :: toAsciiUppercase rest := rfl
    simp [splitsCharacter_of_ne hupper hstart]
  unfold Control.parseOne
  simp only
  cases hfree : stripStart textStart token with
  | some rest =>
    refine iff_of_false (by simp) ?_
    simp only [stripStart, Option.ite_none_right_eq_some, List.isPrefixOf_iff_prefix] at hfree
    obtain ⟨⟨tail, rfl⟩, -⟩ := hfree
    exact hsplits rfl (by decide)
  | none =>
    simp only
    cases hkey : keyToken token with
    | some c =>
      refine iff_of_false (by simp) ?_
      unfold keyToken at hkey
      split at hkey
      · split_ifs at hkey with hk
        rcases hk with rfl | rfl
        · exact hsplits rfl (by decide)
        · exact hsplits rfl (by decide)
      · cases hkey
    | none =>
      simp only
      cases hfixed : fixedCommands.lookup (toAsciiUppercase token) with
      | none => exact parseArgument_eq_panicked_iff token
      | some command =>
        refine iff_of_false (by simp) ?_
        have hshort : ∀ pair ∈ fixedCommands, (pair.1.head? == some 'N' && 1 < pair.1.length) = false := by
          decide
        obtain ⟨before, after, hlist, -⟩ := List.lookup_eq_some_iff.mp hfixed
        have hword := hshort (toAsciiUppercase token, command) (by rw [hlist]; simp)
        unfold splitsCharacter
        split
        · rename_i first kind rest heq
          rw [heq] at hword
          simp only [List.head?_cons, List.length_cons, Bool.and_eq_false_iff, beq_eq_false_iff_ne,
            ne_eq, Option.some.injEq, decide_eq_false_iff_not] at hword
          have hfirst : first ≠ 'N' := hword.resolve_right (by omega)
          simp [hfirst]
        · simp

/-! ### A whole body -/

/-- The commands a body is cut into: at every separator, up to free text, which takes the rest. -/
def commandTokens (rest : Text) : List Text :=
  if textStart.isPrefixOf rest then [rest]
  else
    match _hfind : rest.idxOf? joinChar with
    | some i => rest.take i :: commandTokens (rest.drop (i + 1))
    | none => [rest]
termination_by rest.length
decreasing_by
  obtain ⟨hi, -⟩ := List.idxOf?_eq_some_iff.mp _hfind
  simp only [List.length_drop]
  omega

/-- Every command that would be cut inside a character comes after one that is refused. -/
def NoCharacterSplit (body : Text) : Prop :=
  ∀ before token after, commandTokens body = before ++ token :: after →
    splitsCharacter token = true →
      ∃ earlier ∈ before, ∃ error, Control.parseOne earlier = .err error

/-- The loop panics exactly on a command that panics and comes after good ones only. -/
theorem parseControlsLoop_eq_panicked_iff (out : List Control) (rest : Text) :
    parseControlsLoop out rest = .panicked ↔
      ∃ before token after, commandTokens rest = before ++ token :: after ∧
        (∀ earlier ∈ before, ∃ command, Control.parseOne earlier = .ok command) ∧
          Control.parseOne token = .panicked := by
  have hlast : ∀ out token, (Control.parseOne token).bind (fun c ↦ Outcome.ok (out ++ [c])) =
      .panicked ↔ ∃ before token' after, [token] = before ++ token' :: after ∧
        (∀ earlier ∈ before, ∃ command, Control.parseOne earlier = .ok command) ∧
          Control.parseOne token' = .panicked := by
    intro out token
    have hone : ∀ (before : List Text) token' after, [token] = before ++ token' :: after ↔
        before = [] ∧ token' = token ∧ after = [] := by
      intro before token' after
      cases before <;> simp [eq_comm]
    simp only [hone]
    cases hparse : Control.parseOne token <;> simp [hparse]
  fun_induction commandTokens rest generalizing out with
  | case1 rest hfree =>
    rw [parseControlsLoop, if_pos hfree]
    exact hlast out rest
  | case2 rest hfree i hfind ih =>
    rw [parseControlsLoop, if_neg hfree]
    split
    · rename_i j hj
      obtain rfl : i = j := Option.some.inj (hfind.symm.trans hj)
      cases hparse : Control.parseOne (rest.take i) with
      | panicked =>
        simp only [Outcome.bind_panicked, true_iff]
        exact ⟨[], _, _, rfl, by simp, hparse⟩
      | err error =>
        simp only [Outcome.bind_err, reduceCtorEq, false_iff, not_exists, not_and]
        intro before token after heq hbefore hpanic
        cases before with
        | nil =>
          obtain ⟨rfl, -⟩ := List.cons.inj heq
          rw [hparse] at hpanic
          cases hpanic
        | cons first before =>
          obtain ⟨rfl, -⟩ := List.cons.inj heq
          obtain ⟨command, hcommand⟩ := hbefore _ List.mem_cons_self
          rw [hparse] at hcommand
          cases hcommand
      | ok command =>
        rw [Outcome.bind_ok]
        refine (ih (out ++ [command])).trans ?_
        constructor
        · rintro ⟨before, token, after, heq, hbefore, hpanic⟩
          refine ⟨rest.take i :: before, token, after, by rw [heq]; rfl, ?_, hpanic⟩
          exact List.forall_mem_cons.mpr ⟨⟨command, hparse⟩, hbefore⟩
        · rintro ⟨before, token, after, heq, hbefore, hpanic⟩
          cases before with
          | nil =>
            obtain ⟨rfl, -⟩ := List.cons.inj heq
            rw [hparse] at hpanic
            cases hpanic
          | cons first before =>
            exact ⟨before, token, after, (List.cons.inj heq).2,
              (List.forall_mem_cons.mp hbefore).2, hpanic⟩
    · rename_i hnone
      rw [hfind] at hnone
      cases hnone
  | case3 rest hfree hfind =>
    rw [parseControlsLoop, if_neg hfree]
    split
    · rename_i j hj
      rw [hfind] at hj
      cases hj
    · exact hlast out rest

theorem mem_of_mem_commandTokens {rest token : Text} (h : token ∈ commandTokens rest) {c : Char}
    (hc : c ∈ token) : c ∈ rest := by
  fun_induction commandTokens rest with
  | case1 rest _ =>
    rw [List.mem_singleton.mp h] at hc
    exact hc
  | case2 rest _ i _ ih =>
    rcases List.mem_cons.mp h with rfl | h
    · exact List.mem_of_mem_take hc
    · exact List.mem_of_mem_drop (ih h)
  | case3 rest _ _ =>
    rw [List.mem_singleton.mp h] at hc
    exact hc

/-- Nothing in a blank body is a template code. -/
theorem splitsCharacter_of_trim_eq_nil {body token : Text} (hblank : trim body = [])
    (htoken : token ∈ commandTokens body) : splitsCharacter token = false := by
  have hwhite : ∀ c ∈ body, isWhitespace c = true := by
    intro c hc
    have hdrop : ∀ c ∈ body.dropWhile isWhitespace, isWhitespace c = true :=
      List.rdropWhile_eq_nil_iff.mp hblank
    rw [← List.takeWhile_append_dropWhile (p := isWhitespace) (l := body)] at hc
    rcases List.mem_append.mp hc with htake | hrest
    · exact List.mem_takeWhile_imp htake
    · exact hdrop c hrest
  by_contra hsplit
  rw [Bool.not_eq_false] at hsplit
  cases token with
  | nil => simp [splitsCharacter, toAsciiUppercase] at hsplit
  | cons first rest =>
    have hfirst : first.toUpper = 'N' := by
      by_contra hother
      have hupper : toAsciiUppercase (first :: rest) = first.toUpper :: toAsciiUppercase rest := rfl
      rw [splitsCharacter_of_ne hupper hother] at hsplit
      cases hsplit
    have hspace : isWhitespace first = true :=
      hwhite first (mem_of_mem_commandTokens htoken List.mem_cons_self)
    rw [toUpper_of_isWhitespace hspace] at hfirst
    subst hfirst
    exact absurd hspace (by decide)

/-- Reading a body returns commands or an error exactly when no command is cut inside a character
before another one is refused. -/
theorem parseControls_ne_panicked_iff (body : Text) :
    parseControls body ≠ .panicked ↔ NoCharacterSplit body := by
  unfold parseControls
  by_cases hblank : trim body = []
  · simp only [hblank, List.isEmpty_nil, if_true, ne_eq, reduceCtorEq, not_false_eq_true, true_iff]
    intro before token after heq hsplit
    rw [splitsCharacter_of_trim_eq_nil hblank (heq ▸ by simp)] at hsplit
    cases hsplit
  · have hempty : (trim body).isEmpty = false := by
      simpa using hblank
    simp only [hempty, Bool.false_eq_true, if_false, ne_eq, parseControlsLoop_eq_panicked_iff,
      parseOne_eq_panicked_iff]
    constructor
    · intro h before token after heq hsplit
      by_contra hgood
      push Not at hgood
      -- the first command that is cut inside a character has only good ones in front of it
      obtain ⟨cut, hcut⟩ : ∃ cut, (before ++ [token]).find? splitsCharacter = some cut :=
        Option.isSome_iff_exists.mp (List.find?_isSome.mpr ⟨token, by simp, hsplit⟩)
      obtain ⟨hcut, front, back, hlist, hfront⟩ := List.find?_eq_some_iff_append.mp hcut
      refine h ⟨front, cut, back ++ after, ?_, fun earlier hearlier ↦ ?_, hcut⟩
      · calc commandTokens body = (before ++ [token]) ++ after := by simp [heq]
          _ = front ++ cut :: (back ++ after) := by simp [hlist]
      · have hwhole : earlier ∈ before ++ [token] := by
          rw [hlist]
          exact List.mem_append_left _ hearlier
        have hno : splitsCharacter earlier = false := by simpa using hfront earlier hearlier
        have hbefore : earlier ∈ before := by
          rcases List.mem_append.mp hwhole with hmem | hmem
          · exact hmem
          · rw [List.mem_singleton.mp hmem, hsplit] at hno
            cases hno
        cases hparse : Control.parseOne earlier with
        | ok command => exact ⟨command, rfl⟩
        | err error => exact absurd hparse (hgood earlier hbefore error)
        | panicked =>
          rw [(parseOne_eq_panicked_iff earlier).mp hparse] at hno
          cases hno
    · rintro h ⟨before, token, after, heq, hbefore, hsplit⟩
      obtain ⟨earlier, hearlier, error, herror⟩ := h before token after heq hsplit
      obtain ⟨command, hcommand⟩ := hbefore earlier hearlier
      rw [herror] at hcommand
      cases hcommand

/-- An accent where the column of a template code belongs. -/
theorem parseControls_accent_panics : ¬ ∀ body, parseControls body ≠ .panicked :=
  fun h ↦ h (text "NTé") (by decide +kernel)

end Taskologic.Core
