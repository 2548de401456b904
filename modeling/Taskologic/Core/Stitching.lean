import Taskologic.Core.Control
import Taskologic.Core.Detector

/-!
# Splitting a control code over several barcodes

A payload that is too wide for the paper is split by `chunks`. The pieces always join to the payload
(`flatten_chunks`), and each fits the paper when three characters do (`code128Modules_le_of_mem_chunks`).

Whether the detector stitches the pieces together again depends on the body and on the scanner
(`stitches_iff`). It does when the body holds no frame delimiter, the scanner sends no prefix or the
payload fits on one barcode, and the detector expects the scanner's Enter. A prefix in front of a
later piece lands inside the open frame and becomes part of the body.
-/

set_option autoImplicit false
set_option relaxedAutoImplicit false

namespace Taskologic.Core

open Library ScanDetector

/-! ### Pieces -/

section Pieces

variable {α : Type*} {size : ℕ}

theorem flatten_chunksLoop (hsize : 0 < size) {fuel : ℕ} {s : List α} (hfuel : s.length ≤ fuel) :
    (chunksLoop size fuel s).flatten = s := by
  induction fuel generalizing s with
  | zero =>
    obtain rfl : s = [] := by simpa using hfuel
    rfl
  | succ fuel ih =>
    cases s with
    | nil => rfl
    | cons a s =>
      have hrest : ((a :: s).drop size).length ≤ fuel := by
        simp only [List.length_drop, List.length_cons] at hfuel ⊢
        omega
      rw [chunksLoop, List.flatten_cons, ih hrest, List.take_append_drop]
      exact List.cons_ne_nil a s

theorem length_of_mem_chunksLoop {fuel : ℕ} {s piece : List α}
    (hpiece : piece ∈ chunksLoop size fuel s) : piece.length ≤ size := by
  induction fuel generalizing s with
  | zero => cases hpiece
  | succ fuel ih =>
    cases s with
    | nil => cases hpiece
    | cons a s =>
      rcases List.mem_cons.mp hpiece with rfl | hpiece
      · exact List.length_take_le _ _
      · exact ih hpiece

/-- A piece is never empty. -/
theorem ne_nil_of_mem_chunksLoop (hsize : 0 < size) {fuel : ℕ} {s piece : List α}
    (hpiece : piece ∈ chunksLoop size fuel s) : piece ≠ [] := by
  induction fuel generalizing s with
  | zero => cases hpiece
  | succ fuel ih =>
    cases s with
    | nil => cases hpiece
    | cons a s =>
      rcases List.mem_cons.mp hpiece with rfl | hpiece
      · obtain ⟨k, rfl⟩ := Nat.exists_eq_add_of_lt hsize
        simp
      · exact ih hpiece

/-- A list longer than one piece starts with a full one. -/
theorem sliceChunks_eq_cons (size : ℕ) {s : List α} (hsize : 0 < size) (hs : size < s.length) :
    ∃ rest, sliceChunks size s = s.take size :: rest ∧ rest ≠ [] := by
  cases s with
  | nil => simp at hs
  | cons a s =>
    refine ⟨_, rfl, fun hrest ↦ ?_⟩
    have hflatten : (chunksLoop size s.length ((a :: s).drop size)).flatten = (a :: s).drop size :=
      flatten_chunksLoop hsize (by simp only [List.length_drop, List.length_cons]; omega)
    rw [hrest] at hflatten
    have hlength := congrArg List.length hflatten
    simp only [List.flatten_nil, List.length_nil, List.length_drop] at hlength
    omega

end Pieces

/-! ### The width of a piece -/

theorem code128Modules_mono {a b : ℕ} (h : a ≤ b) : code128Modules a ≤ code128Modules b := by
  simp only [code128Modules]
  omega

theorem maxChunk_succ (chars dots : ℕ) :
    maxChunk (chars + 1) dots =
      if code128Modules (chars + 1) ≤ dots then chars + 1 else maxChunk chars dots := by
  simp only [maxChunk, List.range'_1_concat, List.reverse_append, List.reverse_singleton,
    List.singleton_append, List.find?_cons, Nat.add_comm 1 chars]
  split <;> simp_all

theorem maxChunk_le (chars dots : ℕ) : maxChunk chars dots ≤ max chars 1 := by
  induction chars with
  | zero => simp [maxChunk]
  | succ chars ih =>
    rw [maxChunk_succ]
    split <;> omega

/-- The largest piece fits, unless nothing does. -/
theorem maxChunk_fits (chars dots : ℕ) :
    maxChunk chars dots = 1 ∨ code128Modules (maxChunk chars dots) ≤ dots := by
  induction chars with
  | zero => exact .inl rfl
  | succ chars ih =>
    rw [maxChunk_succ]
    split
    · exact .inr ‹_›
    · exact ih

/-- A payload of several characters comes back whole exactly when it fits. -/
theorem le_maxChunk_iff {chars : ℕ} (dots : ℕ) (hchars : 2 ≤ chars) :
    chars ≤ maxChunk chars dots ↔ code128Modules chars ≤ dots := by
  obtain ⟨n, rfl⟩ := Nat.exists_eq_add_of_le' (show 1 ≤ chars by omega)
  rw [maxChunk_succ]
  split
  · simp_all
  · have := maxChunk_le n dots
    simp_all
    omega

/-! ### The pieces of a payload -/

/-- The pieces join to the payload. -/
theorem flatten_chunks (payload : Text) (dots : ℕ) : (chunks payload dots).flatten = payload := by
  simp only [chunks]
  split
  · simp
  · exact flatten_chunksLoop (by omega) le_rfl

/-- Every piece fits on paper that three characters fit on. -/
theorem code128Modules_le_of_mem_chunks {payload piece : Text} {dots : ℕ}
    (hthree : code128Modules 3 ≤ dots) (hpiece : piece ∈ chunks payload dots) :
    code128Modules piece.length ≤ dots := by
  have hfits := maxChunk_fits payload.length dots
  have hone : code128Modules 1 ≤ dots := (code128Modules_mono (by omega)).trans hthree
  simp only [chunks] at hpiece
  split at hpiece
  · rename_i hwhole
    obtain rfl : piece = payload := by simpa using hpiece
    refine (code128Modules_mono hwhole).trans ?_
    rcases hfits with h | h
    · rwa [h]
    · exact h
  · have hlength := length_of_mem_chunksLoop hpiece
    refine (code128Modules_mono hlength).trans ?_
    rcases le_total (maxChunk payload.length dots) 3 with hle | hle
    · rwa [max_eq_right hle]
    · rw [max_eq_left hle]
      rcases hfits with h | h
      · omega
      · exact h

theorem ne_nil_of_mem_chunks {payload piece : Text} {dots : ℕ} (hpayload : payload ≠ [])
    (hpiece : piece ∈ chunks payload dots) : piece ≠ [] := by
  simp only [chunks] at hpiece
  split at hpiece
  · obtain rfl : piece = payload := by simpa using hpiece
    exact hpayload
  · exact ne_nil_of_mem_chunksLoop (by omega) hpiece

/-- The first piece of a payload holds the whole opening, and it is the only piece exactly when the
payload fits. -/
theorem exists_chunks_framed (body : Text) (dots : ℕ) :
    ∃ first rest, chunks (framed body) dots = (frameStart ++ first) :: rest ∧
      first ++ rest.flatten = body ++ frameText ∧
      (rest = [] ↔ code128Modules (framed body).length ≤ dots) := by
  have hframed : framed body = frameStart ++ (body ++ frameText) := by
    simp [framed, frameStart, frameText]
  have hlength : (framed body).length = body.length + 5 := by
    simp [framed, frameText]
  have hfits := le_maxChunk_iff dots (show 2 ≤ (framed body).length by omega)
  have hflatten := flatten_chunks (framed body) dots
  by_cases hwhole : (framed body).length ≤ maxChunk (framed body).length dots
  · refine ⟨body ++ frameText, [], ?_, by simp, by simpa using hfits.mp hwhole⟩
    simp only [chunks, if_pos hwhole]
    rw [hframed]
  · obtain ⟨rest, hchunks, hrest⟩ :=
      sliceChunks_eq_cons (max (maxChunk (framed body).length dots) 3)
        (by omega) (show _ < (framed body).length by omega)
    have htake : (framed body).take (max (maxChunk (framed body).length dots) 3) =
        frameStart ++ (body ++ frameText).take (max (maxChunk (framed body).length dots) 3 - 3) := by
      rw [hframed, List.take_append, List.take_of_length_le (by simp [frameStart])]
      rfl
    rw [chunks, if_neg hwhole, hchunks] at hflatten ⊢
    rw [htake] at hflatten ⊢
    refine ⟨_, rest, rfl, ?_, iff_of_false hrest (fun h ↦ hwhole (hfits.mpr h))⟩
    rw [List.flatten_cons, List.append_assoc, hframed] at hflatten
    exact List.append_cancel_left hflatten

/-! ### Scanning the pieces -/

/-- The keys of scanning some pieces in order, each with the scanner's prefix in front and Enter
behind. -/
def scanPieces (d : ScanDetector) (pieces : List Text) : List ScanKey :=
  pieces.flatMap fun piece ↦ (d.scannerPrefix ++ piece).map .char ++ [.enter]

theorem scanPieces_cons (d : ScanDetector) (piece : Text) (pieces : List Text) :
    scanPieces d (piece :: pieces) =
      (d.scannerPrefix ++ piece).map .char ++ .enter :: scanPieces d pieces := by
  rw [scanPieces, List.flatMap_cons, List.append_assoc]
  rfl

@[simp] theorem charsOf_scanPieces (d : ScanDetector) (pieces : List Text) :
    charsOf (scanPieces d pieces) = pieces.flatMap (d.scannerPrefix ++ ·) := by
  induction pieces with
  | nil => rfl
  | cons piece pieces ih =>
    rw [scanPieces_cons, charsOf_append, charsOf_map_char, charsOf_enter_cons, ih,
      List.flatMap_cons]

/-- Scanning non-empty pieces ends in a character and Enter. -/
theorem exists_scanPieces_eq (d : ScanDetector) {pieces : List Text} (hpieces : pieces ≠ [])
    (hnonempty : ∀ piece ∈ pieces, piece ≠ []) :
    ∃ front c, scanPieces d pieces = front ++ [.char c, .enter] := by
  obtain ⟨init, last, rfl⟩ := List.eq_nil_or_concat' pieces |>.resolve_left hpieces
  obtain ⟨start, c, rfl⟩ := List.eq_nil_or_concat' last |>.resolve_left (hnonempty last (by simp))
  exact ⟨scanPieces d init ++ (d.scannerPrefix ++ start).map .char, c, by simp [scanPieces]⟩

theorem isInfix_of_isInfix_map_char {run line : Text}
    (h : run.map ScanKey.char <:+: line.map .char) : run <:+: line := by
  obtain ⟨before, behind, hsplit⟩ := h
  have hchars := congrArg charsOf hsplit
  simp only [charsOf_append, charsOf_map_char] at hchars
  exact ⟨charsOf before, charsOf behind, hchars⟩

/-- A run of characters that is typed while scanning pieces lies within one of them, behind the
scanner's prefix. -/
theorem isInfix_of_isInfix_scanPieces (d : ScanDetector) {run : Text} (hrun : run ≠ [])
    {pieces : List Text} (h : run.map .char <:+: scanPieces d pieces) :
    ∃ piece ∈ pieces, run <:+: d.scannerPrefix ++ piece := by
  have henter : ScanKey.enter ∉ run.map ScanKey.char := by simp
  induction pieces with
  | nil =>
    rw [scanPieces, List.flatMap_nil, List.infix_nil] at h
    exact absurd (List.map_eq_nil_iff.mp h) hrun
  | cons piece pieces ih =>
    rw [scanPieces_cons, infix_append_cons_iff henter] at h
    rcases h with hhere | hthere
    · exact ⟨piece, List.mem_cons_self, isInfix_of_isInfix_map_char hhere⟩
    · obtain ⟨other, hother, hin⟩ := ih hthere
      exact ⟨other, List.mem_cons_of_mem _ hother, hin⟩

/-- The opening of a frame does not occur again in what follows it in a framable payload. -/
theorem not_isInfix_frameStart {body : Text} (hbody : Framable frameChar body) :
    ¬ frameStart <:+: body ++ frameText := by
  intro h
  have hshape : body ++ frameText = (body ++ [frameChar]) ++ [frameChar] := by simp [frameText]
  rw [hshape, List.infix_concat_iff] at h
  rcases h with hend | hinside
  · -- it would end in the version character
    obtain ⟨before, hsplit⟩ := hend
    have hlast := congrArg List.getLast? hsplit
    simp [frameStart, version1, frameChar] at hlast
  · exact hbody (List.IsInfix.trans ⟨[], [version1], rfl⟩ hinside)

/-- What the claim about split codes says: the pieces join to the payload, each fits when three
characters do, and scanning them delivers one frame with the payload's body and nothing else. -/
def Stitches (d : ScanDetector) (body : Text) (dots : ℕ) (keys : List (ScanKey × ℕ)) : Prop :=
  (chunks (framed body) dots).flatten = framed body ∧
    (code128Modules 3 ≤ dots →
      ∀ piece ∈ chunks (framed body) dots, code128Modules piece.length ≤ dots) ∧
    d.delivered keys = [.frame body]

/-- A payload with a framable body is read as one frame when no prefix gets into it. -/
theorem delivered_of_framable {d reader : ScanDetector} {body : Text} {rest : List (ScanKey × ℕ)}
    (hframe : InFrame d false [] reader) (htime : reader.InTime rest)
    (htyped : typed rest = body ++ frameText) (hbody : Framable frameChar body)
    (henter : d.enterTerminates) {front : List ScanKey} {c : Char}
    (hrest : rest.map Prod.fst = front ++ [.char c, .enter]) :
    reader.delivered rest = [.frame body] := by
  have hread : unframe frameChar false (typed rest) = some (body, []) :=
    unframe_eq_some_iff.mpr ⟨htyped, hbody⟩
  obtain ⟨before, now, behind, closed, rfl, hlate, hclosed, htimeBehind, hdelivered, -⟩ :=
    hframe.delivered_of_unframe_eq_some htime hread
  have hsuffix : behind.map Prod.fst <:+ front ++ [.char c, .enter] := by
    rw [← hrest, List.map_append, List.map_cons]
    exact (List.suffix_cons _ _).trans (List.suffix_append _ _)
  have hsilent := hclosed.delivered_eq_nil htimeBehind (by
    rw [if_pos henter]
    exact suffix_of_charsOf_eq_nil hsuffix hlate)
  rw [hdelivered, hsilent.1, List.nil_append]

/-- What is left to scan after the opening ends in a character and Enter. -/
theorem exists_remaining_eq (d : ScanDetector) {first : Text} {more : List Text}
    (hfirst : more = [] → first ≠ []) (hmore : ∀ piece ∈ more, piece ≠ []) :
    ∃ front c, first.map .char ++ .enter :: scanPieces d more = front ++ [.char c, .enter] := by
  by_cases hnil : more = []
  · subst hnil
    obtain ⟨start, c, rfl⟩ := List.eq_nil_or_concat' first |>.resolve_left (hfirst rfl)
    exact ⟨start.map .char, c, by simp [scanPieces]⟩
  · obtain ⟨front, c, hfront⟩ := exists_scanPieces_eq d hnil hmore
    exact ⟨first.map .char ++ .enter :: front, c, by rw [hfront]; simp⟩

theorem length_flatMap_append (start : Text) (pieces : List Text) :
    (pieces.flatMap (start ++ ·)).length =
      pieces.length * start.length + pieces.flatten.length := by
  induction pieces with
  | nil => simp
  | cons piece pieces ih =>
    simp only [List.flatMap_cons, List.length_append, ih, List.length_cons, List.flatten_cons]
    ring

theorem isInfix_of_isInfix_append {start run line : Text} (h : start ++ run <:+: start ++ line) :
    run <:+: line := by
  obtain ⟨before, behind, hsplit⟩ := h
  rw [List.append_assoc, List.append_assoc, ← List.append_assoc before] at hsplit
  rcases List.append_eq_append_iff.mp hsplit with ⟨middle, hstart, hline⟩ | ⟨middle, -, hline⟩
  · have hlength := congrArg List.length hstart
    simp only [List.length_append] at hlength
    obtain rfl : middle = [] := List.eq_nil_of_length_eq_zero (by omega)
    exact ⟨[], behind, by simpa using hline⟩
  · exact ⟨middle, behind, by rw [hline, List.append_assoc]⟩

/-- Nothing that is scanned after the opening opens a frame again. -/
theorem not_isInfix_remaining (d : ScanDetector) {body first : Text} {more : List Text}
    (hbody : Framable frameChar body) (hjoin : first ++ more.flatten = body ++ frameText) :
    ¬ (d.scannerPrefix ++ frameStart).map .char <:+:
      first.map .char ++ .enter :: scanPieces d more := by
  have hframe : ∀ line : Text, line <:+: body ++ frameText → ¬ frameStart <:+: line :=
    fun line hline h ↦ not_isInfix_frameStart hbody (h.trans hline)
  rw [infix_append_cons_iff (by simp), not_or]
  constructor
  · intro h
    refine hframe first ?_ ((List.suffix_append _ _).isInfix.trans (isInfix_of_isInfix_map_char h))
    rw [← hjoin]
    exact (List.prefix_append _ _).isInfix
  · intro h
    obtain ⟨piece, hpiece, hinside⟩ := isInfix_of_isInfix_scanPieces d (by simp [frameStart]) h
    refine hframe piece ?_ (isInfix_of_isInfix_append hinside)
    rw [← hjoin]
    obtain ⟨before, behind, rfl⟩ := List.append_of_mem hpiece
    exact ⟨first ++ before.flatten, behind.flatten, by simp⟩

/-- Scanning the pieces delivers the payload's body exactly when the body holds no frame delimiter,
no scanner prefix stands in front of a second piece, and the detector expects the Enter. -/
theorem stitches_iff {d : ScanDetector} (hidle : d.isIdle) (body : Text) (dots : ℕ)
    {keys : List (ScanKey × ℕ)}
    (hkeys : keys.map Prod.fst = scanPieces d (chunks (framed body) dots)) (htime : d.InTime keys) :
    Stitches d body dots keys ↔
      Framable frameChar body ∧
        (d.scannerPrefix = [] ∨ code128Modules (framed body).length ≤ dots) ∧
        d.enterTerminates := by
  rw [Stitches, and_iff_right (flatten_chunks _ _),
    and_iff_right fun hthree _ ↦ code128Modules_le_of_mem_chunks hthree]
  have hnonempty : ∀ piece ∈ chunks (framed body) dots, piece ≠ [] :=
    fun _ ↦ ne_nil_of_mem_chunks (by simp [framed, frameText])
  obtain ⟨first, more, hchunks, hjoin, hwhole⟩ := exists_chunks_framed body dots
  have hstream : keys.map Prod.fst = (d.scannerPrefix ++ frameStart).map ScanKey.char ++
      (first.map .char ++ .enter :: scanPieces d more) := by
    rw [hkeys, hchunks, scanPieces_cons]
    simp
  obtain ⟨rest, reader, hrest, hframe, htimeRest, hdelivered, -⟩ :=
    exists_inFrame_of_isIdle hidle hstream htime
  have htyped : typed rest = first ++ more.flatMap (d.scannerPrefix ++ ·) := by
    simp [typed, hrest]
  obtain ⟨front, c, hfront⟩ : ∃ front c,
      first.map .char ++ .enter :: scanPieces d more = front ++ [.char c, .enter] := by
    refine exists_remaining_eq d ?_ fun piece hpiece ↦ hnonempty piece (by simp [hchunks, hpiece])
    rintro rfl rfl
    simp [frameText] at hjoin
  rw [hdelivered]
  constructor
  · intro hone
    cases hread : unframe frameChar false (typed rest) with
    | none =>
      rw [(hframe.delivered_of_unframe_eq_none htimeRest hread).1] at hone
      cases hone
    | some split =>
      obtain ⟨found, late⟩ := split
      obtain ⟨before, now, behind, closed, hbefore, hlate, hclosed, htimeBehind, hfound, -⟩ :=
        hframe.delivered_of_unframe_eq_some htimeRest hread
      obtain ⟨rfl, hsilent⟩ : found = body ∧ closed.delivered behind = [] := by
        simpa [hfound] using hone
      obtain ⟨hsplit, hbody⟩ := unframe_eq_some_iff.mp hread
      have hremaining := hrest.trans hfront
      have hlast : (behind.map Prod.fst).getLast? = some .enter := by
        have hend := congrArg List.getLast? hremaining
        rw [hbefore] at hend
        cases behind with
        | nil => simp at hend
        | cons stroke behind => simpa [List.getLast?_append, List.getLast?_cons] using hend
      -- no character is left over, since the opening of a frame does not come again
      have hnil : late = [] := by
        by_contra hlateNe
        have hopening := isInfix_of_silent hclosed.phase htimeBehind hlast hsilent
          (by rwa [hlate])
        rw [hclosed.scannerPrefix] at hopening
        refine not_isInfix_remaining d hbody hjoin (hopening.trans ?_)
        rw [← hrest, hbefore, List.map_append, List.map_cons]
        exact ((List.suffix_cons _ _).trans (List.suffix_append _ _)).isInfix
      subst hnil
      refine ⟨hbody, ?_, ?_⟩
      · have hflat : first ++ more.flatMap (d.scannerPrefix ++ ·) = first ++ more.flatten := by
          rw [← htyped, hsplit, hjoin]
          rfl
        have hlength := congrArg List.length (List.append_cancel_left hflat)
        rw [length_flatMap_append, Nat.add_eq_right, Nat.mul_eq_zero] at hlength
        rcases hlength with hmore | hscanner
        · exact .inr (hwhole.mp (List.eq_nil_of_length_eq_zero hmore))
        · exact .inl (List.eq_nil_of_length_eq_zero hscanner)
      · cases behind with
        | nil => simp at hlast
        | cons stroke behind =>
          obtain ⟨key, now⟩ := stroke
          obtain ⟨hheld, -⟩ := silent_cons hsilent
          cases key with
          | char c => simp at hlate
          | enter =>
            rw [push_enter_of_nothing htimeBehind.1, pushEnter] at hheld
            rw [← hclosed.swallowEnter]
            by_contra hswallow
            simp [hswallow, hclosed.phase] at hheld
  · rintro ⟨hbody, hscanner, henter⟩
    have hsame : typed rest = body ++ frameText := by
      rw [htyped, ← hjoin]
      rcases hscanner with hscanner | hfits
      · simp [hscanner, List.flatMap_id']
      · simp [hwhole.mpr hfits]
    exact delivered_of_framable hframe htimeRest hsame hbody henter (hrest.trans hfront)

/-- On paper that three characters fit on, a scanner without prefix reads a code from three pieces. -/
theorem stitches_moveLeft :
    let d := ScanDetector.new.withEnterTerminates true
    Stitches d (text "ML") 68 (atOnce (scanPieces d (chunks (framed (text "ML")) 68))) :=
  (stitches_iff (by decide) (text "ML") 68 (by decide) (by decide)).mpr
    ⟨by decide, .inl (by decide), by decide⟩

/-- With a prefix it does not: the prefix of the second and third piece becomes part of the body, and
the frame stays open. -/
theorem not_stitches_scannerPrefix :
    let d := (ScanDetector.new.withPrefix (text "A")).withEnterTerminates true
    let keys := atOnce (scanPieces d (chunks (framed (text "ML")) 68))
    d.isIdle ∧ keys.map Prod.fst = scanPieces d (chunks (framed (text "ML")) 68) ∧ d.InTime keys ∧
      ¬ Stitches d (text "ML") 68 keys := by
  refine ⟨by decide, by decide, by decide, ?_⟩
  rintro ⟨-, -, hdelivered⟩
  exact absurd hdelivered (by decide)

end Taskologic.Core
