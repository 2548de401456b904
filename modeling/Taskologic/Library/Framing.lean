import Mathlib.Data.List.Infix
import Mathlib.Tactic

/-!
# Streams framed by a doubled delimiter

A reader that knows one delimiter character and closes a frame at the first two of them in a row
hands over everything before as the body. The reader is `unframe`; it carries one bit of state,
whether the last character was a delimiter.

A body survives the trip exactly when it is `Framable`: no doubled delimiter occurs in it, and it
does not end in a delimiter that the closing one would pair up with. `unframe_eq_some_iff` is the
whole theory: the reader splits a stream at a framable body followed by the doubled delimiter, and
at no other place. For a body that is not framable something shorter is read in its place (`exists_unframe`).
-/

set_option autoImplicit false
set_option relaxedAutoImplicit false

namespace Taskologic.Library

variable {α : Type*}

/-- The body has no doubled delimiter, not even with the first character of the closing one. -/
def Framable (delimiter : α) (body : List α) : Prop :=
  ¬ [delimiter, delimiter] <:+: body ++ [delimiter]

instance [DecidableEq α] (delimiter : α) (body : List α) : Decidable (Framable delimiter body) :=
  inferInstanceAs (Decidable (¬ _))

/-- Reads a stream up to the first doubled delimiter: the body before it and the rest after it.
`pending` tells whether a single delimiter was read last, which is body unless another follows. -/
def unframe [DecidableEq α] (delimiter : α) (pending : Bool) : List α → Option (List α × List α)
  | [] => none
  | c :: rest =>
    if c = delimiter then
      if pending then some ([], rest) else unframe delimiter true rest
    else
      (unframe delimiter false rest).map fun split ↦
        ((if pending then [delimiter] else []) ++ c :: split.1, split.2)

/-! ### Framable bodies -/

section Framable

variable {delimiter : α}

theorem framable_nil : Framable delimiter [] := by
  simp [Framable, List.infix_cons_iff]

theorem framable_cons_of_ne {c : α} {body : List α} (hc : c ≠ delimiter) :
    Framable delimiter (c :: body) ↔ Framable delimiter body := by
  simp [Framable, List.infix_cons_iff, hc.symm]

theorem framable_delimiter_cons_of_ne {c : α} {body : List α} (hc : c ≠ delimiter) :
    Framable delimiter (delimiter :: c :: body) ↔ Framable delimiter body := by
  simp [Framable, List.infix_cons_iff, hc.symm]

theorem not_framable_delimiter_delimiter (body : List α) :
    ¬ Framable delimiter (delimiter :: delimiter :: body) := by
  simp [Framable, List.infix_cons_iff]

theorem not_framable_delimiter : ¬ Framable delimiter [delimiter] := by
  simp [Framable]

theorem framable_of_not_mem {body : List α} (hbody : delimiter ∉ body) :
    Framable delimiter body := by
  induction body with
  | nil => exact framable_nil
  | cons c body ih =>
    have hc : c ≠ delimiter := fun heq ↦ hbody (heq ▸ List.mem_cons_self)
    exact (framable_cons_of_ne hc).mpr (ih fun hmem ↦ hbody (List.mem_cons_of_mem _ hmem))

/-- A framable body that starts with the delimiter has another character behind it. -/
theorem Framable.eq_nil_of_append_delimiter {body rest tail : List α}
    (hframable : Framable delimiter body)
    (hsplit : delimiter :: delimiter :: rest = body ++ delimiter :: delimiter :: tail) :
    body = [] := by
  match body, hsplit with
  | [], _ => rfl
  | [c], hsplit =>
    have hc : delimiter = c := by simpa using congrArg List.head? hsplit
    exact absurd (hc ▸ hframable) not_framable_delimiter
  | c :: c' :: body, hsplit =>
    simp only [List.cons_append, List.cons.injEq] at hsplit
    obtain ⟨rfl, rfl, -⟩ := hsplit
    exact absurd hframable (not_framable_delimiter_delimiter body)

/-- A run at the start that avoids a separator ends before it. -/
theorem prefix_of_prefix_append_cons (left : List α) {run right : List α} {separator : α}
    (hrun : separator ∉ run) (h : run <+: left ++ separator :: right) : run <+: left := by
  induction left generalizing run with
  | nil =>
    cases run with
    | nil => exact List.nil_prefix
    | cons c run =>
      obtain ⟨rfl, -⟩ := List.cons_prefix_cons.mp h
      exact absurd List.mem_cons_self hrun
  | cons a left ih =>
    cases run with
    | nil => exact List.nil_prefix
    | cons c run =>
      obtain ⟨rfl, hrest⟩ := List.cons_prefix_cons.mp h
      exact List.cons_prefix_cons.mpr ⟨rfl, ih (fun hmem ↦ hrun (List.mem_cons_of_mem _ hmem)) hrest⟩

/-- A run that avoids a separator lies on one side of it. -/
theorem infix_append_cons_iff {run left right : List α} {separator : α} (hrun : separator ∉ run) :
    run <:+: left ++ separator :: right ↔ run <:+: left ∨ run <:+: right := by
  constructor
  · intro h
    induction left with
    | nil =>
      rcases List.infix_cons_iff.mp h with hstart | hrest
      · exact .inl (prefix_of_prefix_append_cons [] hrun hstart).isInfix
      · exact .inr hrest
    | cons a left ih =>
      rcases List.infix_cons_iff.mp h with hstart | hrest
      · exact .inl (prefix_of_prefix_append_cons (a :: left) hrun hstart).isInfix
      · exact (ih hrest).imp_left fun hleft ↦ hleft.trans (List.suffix_cons a left).isInfix
  · rintro (h | h)
    · exact h.trans (List.prefix_append left _).isInfix
    · exact h.trans ((List.suffix_cons _ _).trans (List.suffix_append left _)).isInfix

/-- A separator other than the delimiter cuts a body in two that can be looked at on their own. -/
theorem framable_append_cons_iff {left right : List α} {separator : α} (h : separator ≠ delimiter) :
    Framable delimiter (left ++ separator :: right) ↔
      ¬ [delimiter, delimiter] <:+: left ∧ Framable delimiter right := by
  rw [Framable, List.append_assoc, List.cons_append, infix_append_cons_iff (by simp [h]), not_or,
    Framable]

end Framable

/-! ### The reader -/

section Reader

variable [DecidableEq α] {delimiter : α}

/-- The reader splits a stream exactly at a framable body followed by the doubled delimiter. A
pending delimiter counts as the first character of the stream. -/
theorem unframe_eq_some_iff_aux (pending : Bool) (stream body rest : List α) :
    unframe delimiter pending stream = some (body, rest) ↔
      (if pending then delimiter :: stream else stream) = body ++ delimiter :: delimiter :: rest ∧
        Framable delimiter body := by
  induction stream generalizing pending body with
  | nil => cases pending <;> cases body <;> simp [unframe]
  | cons c stream ih =>
    by_cases hc : c = delimiter
    · subst hc
      cases pending with
      | false => simpa [unframe] using ih true body
      | true =>
        simp only [unframe, if_true, Option.some.injEq, Prod.mk.injEq]
        constructor
        · rintro ⟨rfl, rfl⟩
          exact ⟨rfl, framable_nil⟩
        · rintro ⟨hsplit, hframable⟩
          obtain rfl := hframable.eq_nil_of_append_delimiter hsplit
          simpa using hsplit
    · have hrest : ∀ body', unframe delimiter false stream = some (body', rest) ↔
          stream = body' ++ delimiter :: delimiter :: rest ∧ Framable delimiter body' := by
        intro body'
        simpa using ih false body'
      simp only [unframe, if_neg hc, Option.map_eq_some_iff, Prod.exists, Prod.mk.injEq]
      cases pending with
      | false =>
        constructor
        · rintro ⟨body', rest', hread, rfl, rfl⟩
          obtain ⟨rfl, hframable⟩ := (hrest body').mp hread
          exact ⟨by simp, (framable_cons_of_ne hc).mpr hframable⟩
        · rintro ⟨hsplit, hframable⟩
          cases body with
          | nil => simp [hc] at hsplit
          | cons c' body' =>
            simp only [Bool.false_eq_true, if_false, List.cons_append, List.cons.injEq] at hsplit
            obtain ⟨rfl, rfl⟩ := hsplit
            exact ⟨body', rest, (hrest body').mpr ⟨rfl, (framable_cons_of_ne hc).mp hframable⟩,
              by simp, rfl⟩
      | true =>
        constructor
        · rintro ⟨body', rest', hread, rfl, rfl⟩
          obtain ⟨rfl, hframable⟩ := (hrest body').mp hread
          exact ⟨by simp, (framable_delimiter_cons_of_ne hc).mpr hframable⟩
        · rintro ⟨hsplit, hframable⟩
          match body, hsplit with
          | [], hsplit => simp [hc] at hsplit
          | [c'], hsplit => simp [hc] at hsplit
          | c' :: c'' :: body', hsplit =>
            simp only [if_true, List.cons_append, List.cons.injEq] at hsplit
            obtain ⟨rfl, rfl, rfl⟩ := hsplit
            exact ⟨body', rest,
              (hrest body').mpr ⟨rfl, (framable_delimiter_cons_of_ne hc).mp hframable⟩,
              by simp, rfl⟩

/-- A reader that starts afresh splits a stream exactly at a framable body followed by the doubled
delimiter. -/
theorem unframe_eq_some_iff {stream body rest : List α} :
    unframe delimiter false stream = some (body, rest) ↔
      stream = body ++ delimiter :: delimiter :: rest ∧ Framable delimiter body := by
  simpa using unframe_eq_some_iff_aux false stream body rest

/-- Two framable bodies in front of a doubled delimiter are one. -/
theorem Framable.eq_of_append {first second firstRest secondRest : List α}
    (hfirst : Framable delimiter first) (hsecond : Framable delimiter second)
    (hsplit : first ++ delimiter :: delimiter :: firstRest =
      second ++ delimiter :: delimiter :: secondRest) : first = second := by
  have hreadFirst : unframe delimiter false (first ++ delimiter :: delimiter :: firstRest) =
      some (first, firstRest) := unframe_eq_some_iff.mpr ⟨rfl, hfirst⟩
  have hreadSecond := unframe_eq_some_iff.mpr ⟨hsplit, hsecond⟩
  rw [hreadFirst, Option.some.injEq, Prod.mk.injEq] at hreadSecond
  exact hreadSecond.1

/-- A doubled delimiter in the stream is always found, at the latest where it stands. -/
theorem exists_unframe_aux (delimiter : α) (pending : Bool) (body rest : List α) :
    ∃ early late, unframe delimiter pending (body ++ delimiter :: delimiter :: rest) =
        some (early, late) ∧ early.length ≤ body.length + pending.toNat := by
  induction body generalizing pending with
  | nil =>
    cases pending with
    | false => exact ⟨[], rest, by simp [unframe], by simp⟩
    | true => exact ⟨[], delimiter :: rest, by simp [unframe], by simp⟩
  | cons c body ih =>
    by_cases hc : c = delimiter
    · cases pending with
      | true => exact ⟨[], body ++ delimiter :: delimiter :: rest, by simp [unframe, hc], by simp⟩
      | false =>
        obtain ⟨early, late, hread, hlength⟩ := ih true
        refine ⟨early, late, by simpa [unframe, hc] using hread, ?_⟩
        simpa using hlength
    · obtain ⟨early, late, hread, hlength⟩ := ih false
      refine ⟨(if pending then [delimiter] else []) ++ c :: early, late, ?_, ?_⟩
      · simp [unframe, hc, hread]
      · cases pending <;> simp at hlength ⊢ <;> omega

/-- A closed frame is always read. What is read is framable and no longer than the body sent, and
it is the body sent exactly when that is framable. -/
theorem exists_unframe (delimiter : α) (body rest : List α) :
    ∃ early late, unframe delimiter false (body ++ delimiter :: delimiter :: rest) =
        some (early, late) ∧ early.length ≤ body.length ∧
        early ++ delimiter :: delimiter :: late = body ++ delimiter :: delimiter :: rest ∧
        (early = body ↔ Framable delimiter body) := by
  obtain ⟨early, late, hread, hlength⟩ := exists_unframe_aux delimiter false body rest
  obtain ⟨hsplit, hframable⟩ := unframe_eq_some_iff.mp hread
  refine ⟨early, late, hread, by simpa using hlength, hsplit.symm, ?_⟩
  constructor
  · rintro rfl
    exact hframable
  · exact fun hbody ↦ hframable.eq_of_append hbody hsplit.symm

end Reader

end Taskologic.Library
