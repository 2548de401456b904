import Taskologic.Library.Packing
import Taskologic.Print.Layout

/-!
# What wrapping does to a text

`wrap` cuts every word that is longer than a line (`cut`) and packs the pieces, one blank between two of them. It is
the greedy packing of the library over the lengths of the pieces (`wrap_eq_pack`); from it comes what a reader of the
slip relies on, that wrapping loses nothing (`wrap_exact`).

Scope. Lengths are numbers of characters, as the source counts them. How wide the printer draws a character is not
modelled.
-/

set_option autoImplicit false
set_option relaxedAutoImplicit false

namespace Taskologic.Print

open Core Library

/-- The characters of a text that are no white space. -/
def ink (s : Text) : Text := s.filter fun c ↦ !isWhitespace c

/-- What `wrap` puts on lines for one word: the full lines that are drained from it, and what is left. -/
def cut (cols : ℕ) (word : Text) : List Text :=
  (drain cols word.length word).1 ++ [(drain cols word.length word).2]

/-! ### The words of a text -/

@[simp]
theorem ink_append (s t : Text) : ink (s ++ t) = ink s ++ ink t := List.filter_append ..

theorem ink_eq_self {s : Text} (h : ∀ c ∈ s, isWhitespace c = false) : ink s = s :=
  List.filter_eq_self.mpr fun c hc ↦ by rw [h c hc, Bool.not_false]

theorem flatten_splitWhitespaceAfter (word s : Text) : (splitWhitespaceAfter word s).flatten = word ++ ink s := by
  induction s generalizing word with
  | nil =>
    rw [splitWhitespaceAfter]
    split_ifs with hword
    · rw [hword]
      rfl
    · simp [ink]
  | cons c rest ih =>
    rw [splitWhitespaceAfter]
    by_cases hc : isWhitespace c
    · have hskip : ink (c :: rest) = ink rest := List.filter_cons_of_neg (by simp [hc])
      rw [if_pos hc, hskip]
      split_ifs with hword
      · rw [ih, hword]
      · rw [List.flatten_cons, ih, List.nil_append]
    · have hkeep : ink (c :: rest) = c :: ink rest := List.filter_cons_of_pos (by simp [hc])
      rw [if_neg hc, ih, hkeep, List.append_assoc]
      rfl

/-- The words of a text are its characters that are no white space, in order. -/
theorem flatten_splitWhitespace (s : Text) : (splitWhitespace s).flatten = ink s :=
  flatten_splitWhitespaceAfter [] s

theorem ne_nil_of_mem_splitWhitespaceAfter {word s found : Text} (h : found ∈ splitWhitespaceAfter word s) :
    found ≠ [] := by
  induction s generalizing word with
  | nil =>
    rw [splitWhitespaceAfter] at h
    split_ifs at h with hword
    · cases h
    · exact List.mem_singleton.mp h ▸ hword
  | cons c rest ih =>
    rw [splitWhitespaceAfter] at h
    split_ifs at h with hc hword
    · exact ih h
    · rcases List.mem_cons.mp h with rfl | h
      · exact hword
      · exact ih h
    · exact ih h

/-! ### The pieces of a word -/

section Cut

variable {cols : ℕ}

theorem drain_of_length_le {word : Text} (h : word.length ≤ cols) (steps : ℕ) : drain cols steps word = ([], word) := by
  cases steps with
  | zero => rfl
  | succ steps => rw [drain, if_neg (not_lt.mpr h)]

theorem flatten_drain (steps : ℕ) (word : Text) :
    (drain cols steps word).1.flatten ++ (drain cols steps word).2 = word := by
  induction steps generalizing word with
  | zero => rfl
  | succ steps ih =>
    rw [drain]
    split_ifs
    · dsimp only
      rw [List.flatten_cons, List.append_assoc, ih, List.take_append_drop]
    · rfl

/-- What is drained are full lines, and something is left of the word. -/
theorem length_of_drain (cols steps : ℕ) {word : Text} (hword : word ≠ []) :
    (∀ piece ∈ (drain cols steps word).1, piece.length = cols) ∧ (drain cols steps word).2 ≠ [] := by
  induction steps generalizing word with
  | zero => exact ⟨by simp [drain], hword⟩
  | succ steps ih =>
    rw [drain]
    split_ifs with hlong
    · have hrest : word.drop cols ≠ [] := by
        rw [ne_eq, List.drop_eq_nil_iff]
        omega
      refine ⟨fun piece hpiece ↦ ?_, (ih hrest).2⟩
      rcases List.mem_cons.mp hpiece with rfl | hpiece
      · rw [List.length_take, min_eq_left hlong.le]
      · exact (ih hrest).1 piece hpiece
    · exact ⟨by simp, hword⟩

theorem cut_of_length_le {word : Text} (h : word.length ≤ cols) : cut cols word = [word] := by
  rw [cut, drain_of_length_le h]
  rfl

theorem flatten_cut (word : Text) : (cut cols word).flatten = word := by
  rw [cut, List.flatten_append, List.flatten_singleton, flatten_drain]

theorem ne_nil_of_mem_cut (hcols : 1 ≤ cols) {word piece : Text} (hword : word ≠ []) (hpiece : piece ∈ cut cols word) :
    piece ≠ [] := by
  obtain ⟨hfull, hrest⟩ := length_of_drain cols word.length hword
  rcases List.mem_append.mp hpiece with hpiece | hpiece
  · have := hfull piece hpiece
    exact List.ne_nil_of_length_pos (by omega)
  · exact List.mem_singleton.mp hpiece ▸ hrest

theorem length_le_of_mem_cut (hcols : 1 ≤ cols) {word piece : Text} (hpiece : piece ∈ cut cols word) :
    piece.length ≤ cols := by
  obtain ⟨hfull, hrest⟩ := length_drain_le hcols (le_refl word.length)
  rcases List.mem_append.mp hpiece with hpiece | hpiece
  · exact hfull piece hpiece
  · exact List.mem_singleton.mp hpiece ▸ hrest

end Cut

/-! ### Lines as groups of pieces -/

section Lines

variable {cols : ℕ} {packing : Packing Text} {group : List Text}

theorem joined_append_singleton (hgroup : group ≠ []) (piece : Text) :
    joined [' '] (group ++ [piece]) = joined [' '] group ++ ' ' :: piece := by
  induction group with
  | nil => exact absurd rfl hgroup
  | cons first rest ih =>
    cases rest with
    | nil => simp [joined]
    | cons second rest =>
      have hrest := ih (List.cons_ne_nil second rest)
      simp only [joined, List.cons_append, List.intersperse_cons_cons, List.flatten_cons, List.append_assoc] at hrest ⊢
      rw [hrest]

theorem length_joined (group : List Text) : (joined [' '] group).length = breadth List.length group := by
  induction group using List.reverseRecOn with
  | nil => rfl
  | append_singleton group piece ih =>
    by_cases hgroup : group = []
    · rw [hgroup]
      simp [joined, breadth]
    · rw [joined_append_singleton hgroup, breadth_append_singleton hgroup, List.length_append, ih, List.length_cons]
      omega

theorem ink_joined (group : List Text) : ink (joined [' '] group) = ink group.flatten := by
  induction group using List.reverseRecOn with
  | nil => rfl
  | append_singleton group piece ih =>
    by_cases hgroup : group = []
    · rw [hgroup]
      simp [joined]
    · have hblank : ink (' ' :: piece) = ink piece := List.filter_cons_of_neg (by decide)
      rw [joined_append_singleton hgroup, ink_append, ih, hblank, List.flatten_append, ink_append,
        List.flatten_singleton]

theorem joined_ne_nil (hgroup : group ≠ []) (hpieces : ∀ piece ∈ group, piece ≠ []) : joined [' '] group ≠ [] := by
  refine List.ne_nil_of_length_pos ?_
  rw [length_joined]
  cases group with
  | nil => exact absurd rfl hgroup
  | cons piece rest =>
    have hpiece := List.length_pos_iff.mpr (hpieces piece List.mem_cons_self)
    simp only [breadth, List.map_cons, List.sum_cons, List.length_cons]
    omega

/-- What `wrap` has made when its pieces are packed so. -/
def written (packing : Packing Text) : Wrapping :=
  ⟨packing.closed.map (joined [' ']), joined [' '] packing.current⟩

theorem flush_written (hpieces : ∀ piece ∈ packing.current, piece ≠ []) :
    (written packing).flush = ⟨packing.groups.map (joined [' ']), []⟩ := by
  by_cases hcurrent : packing.current = []
  · rw [Packing.groups_of_nil hcurrent, Wrapping.flush, written, hcurrent]
    rfl
  · have hline : (written packing).cur ≠ [] := joined_ne_nil hcurrent hpieces
    rw [Packing.groups_of_current hcurrent, Wrapping.flush, if_neg hline, List.map_append]
    rfl

/-- What is left of a word joins the line, or begins one. -/
def place (cols : ℕ) (state : Wrapping) (rest : Text) : Wrapping :=
  let state := if state.cur ≠ [] ∧ cols < state.cur.length + 1 + rest.length then state.flush else state
  { state with cur := if state.cur = [] then rest else state.cur ++ ' ' :: rest }

theorem wrapWord_eq (cols : ℕ) (state : Wrapping) (word : Text) :
    wrapWord cols state word =
      place cols (if (drain cols word.length word).1 = [] then state
        else { state.flush with lines := state.flush.lines ++ (drain cols word.length word).1 })
        (drain cols word.length word).2 := rfl

theorem place_written (hpieces : ∀ piece ∈ packing.current, piece ≠ []) (rest : Text) :
    place cols (written packing) rest = written (packing.add List.length cols rest) := by
  have hlength : (written packing).cur.length = breadth List.length packing.current := length_joined packing.current
  have hempty : (written packing).cur = [] ↔ packing.current = [] := by
    refine ⟨fun hcur ↦ ?_, fun hcurrent ↦ ?_⟩
    · by_contra hcurrent
      exact joined_ne_nil hcurrent hpieces hcur
    · rw [written, hcurrent]
      rfl
  have halone : joined [' '] [rest] = rest := by simp [joined]
  rw [place, hlength, Packing.add]
  simp only [ne_eq, hempty]
  split_ifs with hfull hflushed hcur
  · rw [flush_written hpieces, written, halone]
    rfl
  · rw [flush_written hpieces] at hflushed
    exact absurd rfl hflushed
  · rw [written, written, hempty.mp hcur, List.nil_append, halone]
  · rw [written, written, joined_append_singleton (mt hempty.mpr hcur)]

theorem place_of_cur_nil {state : Wrapping} (hcur : state.cur = []) (rest : Text) :
    place cols state rest = ⟨state.lines, rest⟩ := by
  simp [place, hcur]

/-- A word of `wrap` is packed piece by piece. -/
theorem wrapWord_written (hpieces : ∀ piece ∈ packing.current, piece ≠ []) {word : Text} (hword : word ≠ []) :
    wrapWord cols (written packing) word = written (packing.addAll List.length cols (cut cols word)) := by
  have hfull := (length_of_drain cols word.length hword).1
  rw [wrapWord_eq, cut]
  generalize (drain cols word.length word).1 = pieces at hfull ⊢
  generalize (drain cols word.length word).2 = rest
  by_cases hnone : pieces = []
  · rw [if_pos hnone, place_written hpieces, hnone]
    rfl
  · have hwidth : ∀ piece ∈ pieces, cols ≤ piece.length := fun piece hpiece ↦ (hfull piece hpiece).ge
    have halone : ∀ piece, joined [' '] [piece] = piece := by simp [joined]
    rw [if_neg hnone, Packing.addAll_append_singleton hnone hwidth, flush_written hpieces, place_of_cur_nil rfl]
    simp [written, halone, Function.comp_def]

theorem foldl_wrapWord (hcols : 1 ≤ cols) {words : List Text} (hwords : ∀ word ∈ words, word ≠ [])
    (hpieces : ∀ piece ∈ packing.current, piece ≠ []) :
    words.foldl (wrapWord cols) (written packing) =
      written (packing.addAll List.length cols (words.flatMap (cut cols))) := by
  induction words generalizing packing with
  | nil => rfl
  | cons word rest ih =>
    have hword : word ≠ [] := hwords word List.mem_cons_self
    have hafter : ∀ piece ∈ (packing.addAll List.length cols (cut cols word)).current, piece ≠ [] := by
      intro piece hpiece
      rcases Packing.mem_current_addAll hpiece with hbefore | hcut
      · exact hpieces piece hbefore
      · exact ne_nil_of_mem_cut hcols hword hcut
    rw [List.foldl_cons, wrapWord_written hpieces hword, ih (fun w hw ↦ hwords w (List.mem_cons_of_mem word hw)) hafter,
      List.flatMap_cons, Packing.addAll, Packing.addAll, Packing.addAll, List.foldl_append]

end Lines

section Wrap

variable {cols : ℕ}

/-- `wrap` is the greedy packing of the pieces of the words. -/
theorem wrap_eq_pack (hcols : 1 ≤ cols) (s : Text) :
    wrap s cols = (pack List.length cols ((splitWhitespace s).flatMap (cut cols))).map (joined [' ']) := by
  have hwords : ∀ word ∈ splitWhitespace s, word ≠ [] := fun word hword ↦ ne_nil_of_mem_splitWhitespaceAfter hword
  have hpieces : ∀ piece ∈ (Packing.empty.addAll List.length cols ((splitWhitespace s).flatMap (cut cols))).current,
      piece ≠ [] := by
    intro piece hpiece
    rcases Packing.mem_current_addAll hpiece with hbefore | hmem
    · cases hbefore
    · obtain ⟨word, hword, hcut⟩ := List.mem_flatMap.mp hmem
      exact ne_nil_of_mem_cut hcols (hwords word hword) hcut
  have hfold := foldl_wrapWord hcols hwords
    (show ∀ piece ∈ Packing.empty.current, piece ≠ [] by simp [Packing.empty])
  rw [wrap, max_eq_left hcols, pack]
  change (List.foldl (wrapWord cols) (written .empty) (splitWhitespace s)).flush.lines = _
  rw [hfold, flush_written hpieces]

/-- The lines of a wrapped text are 1 to `cols` characters long and hold what the text says. They are groups of pieces
with blanks between them: a word that is not longer than a line is one piece, and the first piece of a line would not
have fitted on the line before. -/
theorem wrap_exact (s : Text) (hcols : 1 ≤ cols) :
    (∀ line ∈ wrap s cols, 1 ≤ line.length ∧ line.length ≤ cols) ∧
      ink (wrap s cols).flatten = ink s ∧
      ∃ groups : List (List Text), wrap s cols = groups.map (joined [' ']) ∧
        (∀ group ∈ groups, group ≠ []) ∧
        groups.flatten = (splitWhitespace s).flatMap (cut cols) ∧
        (∀ word ∈ splitWhitespace s, (cut cols word).flatten = word ∧ (word.length ≤ cols → cut cols word = [word])) ∧
        groups.IsChain fun group next ↦
          ∀ piece ∈ next.head?, cols < (joined [' '] group).length + 1 + piece.length := by
  have hpacked : Packed List.length cols (pack List.length cols ((splitWhitespace s).flatMap (cut cols))) := by
    refine packed_pack fun piece hpiece ↦ ?_
    obtain ⟨word, -, hcut⟩ := List.mem_flatMap.mp hpiece
    exact length_le_of_mem_cut hcols hcut
  have hflatten : (pack List.length cols ((splitWhitespace s).flatMap (cut cols))).flatten =
      (splitWhitespace s).flatMap (cut cols) := flatten_pack _
  rw [wrap_eq_pack hcols]
  generalize pack List.length cols ((splitWhitespace s).flatMap (cut cols)) = groups at hpacked hflatten
  refine ⟨fun line hline ↦ ?_, ?_, groups, rfl, hpacked.nonempty, hflatten,
    fun word _ ↦ ⟨flatten_cut word, cut_of_length_le⟩, ?_⟩
  · obtain ⟨group, hgroup, rfl⟩ := List.mem_map.mp hline
    have hpieces : ∀ piece ∈ group, piece ≠ [] := by
      intro piece hpiece
      have hmem : piece ∈ (splitWhitespace s).flatMap (cut cols) :=
        hflatten ▸ List.mem_flatten.mpr ⟨group, hgroup, hpiece⟩
      obtain ⟨word, hword, hcut⟩ := List.mem_flatMap.mp hmem
      exact ne_nil_of_mem_cut hcols (ne_nil_of_mem_splitWhitespaceAfter hword) hcut
    refine ⟨List.length_pos_iff.mpr (joined_ne_nil (hpacked.nonempty group hgroup) hpieces), ?_⟩
    rw [length_joined]
    exact hpacked.fits group hgroup
  · have hjoined (groups : List (List Text)) : ink (groups.map (joined [' '])).flatten = ink groups.flatten.flatten := by
      induction groups with
      | nil => rfl
      | cons group rest ih =>
        rw [List.map_cons, List.flatten_cons, ink_append, ink_joined, ih, List.flatten_cons, List.flatten_append,
          ink_append]
    have hwords (words : List Text) : (words.flatMap (cut cols)).flatten = words.flatten := by
      induction words with
      | nil => rfl
      | cons word rest ih =>
        rw [List.flatMap_cons, List.flatten_append, flatten_cut, ih, List.flatten_cons]
    have hink : ink (ink s) = ink s := by simp [ink]
    rw [hjoined, hflatten, hwords, flatten_splitWhitespace, hink]
  · simp only [length_joined]
    exact hpacked.greedy

/-- A word of seven letters on lines of four. -/
theorem wrap_exact_at_four :
    1 ≤ 4 ∧ wrap (text "go homeward now") 4 = [text "go", text "home", text "ward", text "now"] ∧
      ink (wrap (text "go homeward now") 4).flatten = ink (text "go homeward now") :=
  ⟨by decide, by decide, (wrap_exact (text "go homeward now") (by decide)).2.1⟩

end Wrap

end Taskologic.Print
