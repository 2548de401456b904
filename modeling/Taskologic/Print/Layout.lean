import Taskologic.Core.Calendar
import Taskologic.Print.Slip

/-!
# What goes on a slip

`plan` lays a job out for a paper so many characters wide: the enabled sections of the layout in order, each as
lines that are already wrapped. `Op.texts` is what an operation puts on the paper as text, with how many columns
one character takes.

Wrapped and fitted lines never run off the paper (`length_le_of_mem_wrap`, `length_fit_le`). What is not wrapped
can: `plan_fits_iff` says of every job, layout and printer when all lines fit.

Scope. Text output ignores the size of a line; a line counts with the size the plan gives it.
-/

set_option autoImplicit false
set_option relaxedAutoImplicit false

namespace Taskologic.Print

open Core

/-! ### Text -/

/-- `str::split_whitespace`, with the word that is being read. -/
def splitWhitespaceAfter (word : Text) : Text → List Text
  | [] => if word = [] then [] else [word]
  | c :: rest =>
    if isWhitespace c then
      if word = [] then splitWhitespaceAfter [] rest else word :: splitWhitespaceAfter [] rest
    else splitWhitespaceAfter (word ++ [c]) rest

def splitWhitespace (s : Text) : List Text := splitWhitespaceAfter [] s

/-- A line without the carriage return at its end. -/
def stripReturn (line : Text) : Text :=
  match line.getLast? with
  | some '\r' => line.dropLast
  | _ => line

/-- `str::lines`, with the line that is being read. -/
def linesAfter (line : Text) : Text → List Text
  | [] => if line = [] then [] else [line]
  | '\n' :: rest => stripReturn line :: linesAfter [] rest
  | c :: rest => linesAfter (line ++ [c]) rest

def lines (s : Text) : List Text := linesAfter [] s

/-- The text cut to so many characters, with a mark where something was cut. -/
def fit (s : Text) (cols : ℕ) : Text :=
  if cols < s.length ∧ 1 < cols then (s.take cols).dropLast ++ ['~'] else s.take cols

/-- Whole lines are drained from a word that is longer than a line. -/
def drain (cols : ℕ) : ℕ → Text → List Text × Text
  | 0, word => ([], word)
  | steps + 1, word =>
    if cols < word.length then
      let (pieces, rest) := drain cols steps (word.drop cols)
      (word.take cols :: pieces, rest)
    else ([], word)

/-- What `wrap` has made so far: the lines, and the line it is filling. -/
structure Wrapping where
  lines : List Text
  cur : Text
  deriving DecidableEq, Repr

/-- The line that is being filled is done. -/
def Wrapping.flush (state : Wrapping) : Wrapping :=
  if state.cur = [] then state else ⟨state.lines ++ [state.cur], []⟩

/-- One word of `wrap`. -/
def wrapWord (cols : ℕ) (state : Wrapping) (word : Text) : Wrapping :=
  let (pieces, rest) := drain cols word.length word
  let state := if pieces = [] then state else { state.flush with lines := state.flush.lines ++ pieces }
  let state := if state.cur ≠ [] ∧ cols < state.cur.length + 1 + rest.length then state.flush else state
  { state with cur := if state.cur = [] then rest else state.cur ++ ' ' :: rest }

/-- Greedy word wrap. Words longer than a line are split hard. -/
def wrap (s : Text) (cols : ℕ) : List Text :=
  ((splitWhitespace s).foldl (wrapWord (max cols 1)) ⟨[], []⟩).flush.lines

/-! ### The plan -/

inductive Align where
  | left
  | center
  | right
  deriving DecidableEq, Repr

/-- One line of text, already wrapped to the column count it was planned for. -/
structure TextLine where
  text : Text
  align : Align
  bold : Bool
  /-- 1 for body text, 2 for a section set large. -/
  scale : ℕ
  deriving DecidableEq, Repr

inductive Op where
  | line (textLine : TextLine)
  | blank
  | barcode (code : Barcode) (label : Text)
  /-- The end of the slip. -/
  | finish
  deriving DecidableEq, Repr

namespace SlipRow

def align (row : SlipRow) : Align := if row.centered then .center else .left

def scale (row : SlipRow) : ℕ := if row.large then 2 else 1

/-- Columns this row's text has, which halves when it is set large. -/
def columns (row : SlipRow) (cols : ℕ) : ℕ := max (cols / row.scale) 1

def line (row : SlipRow) (t : Text) : Op := .line ⟨t, row.align, row.bold, row.scale⟩

/-- Wrapped to this row's width, one operation a line. -/
def lines (row : SlipRow) (t : Text) (cols : ℕ) : List Op := (wrap t (row.columns cols)).map row.line

end SlipRow

/-- `local`: the date and the time of a moment, the way the zone of the job shows them. -/
def stamp (job : PrintJob) (moment : Instant) : Text :=
  dateText (job.timezone.dateAt moment) ++ ' ' :: timeText (job.timezone.toLocal moment)

/-- "Due: 2027-01-15 09:00" on one line while it fits at the row's size. Else the time goes on a line of its own,
and a paper too narrow even for the date drops to body size. -/
def dated (row : SlipRow) (label : Text) (moment : Instant) (job : PrintJob) (cols : ℕ) : List Op :=
  let whole := label ++ text ": " ++ stamp job moment
  if whole.length ≤ row.columns cols then [row.line whole]
  else
    let date := (stamp job moment).takeWhile (· ≠ ' ')
    let time := (stamp job moment).dropWhile (· ≠ ' ') |>.drop 1
    let plain := { row with bold := false }
    let first := label ++ text ": " ++ date
    let plain := if plain.columns cols < first.length then { plain with large := false } else plain
    plain.line first :: if time = [] then [] else [plain.line (text "At: " ++ time)]

/-- `ScanAction::finishes`. -/
def finishes (action : ScanAction) : Bool := action != .startPause

/-- What the line above a code says where the code does not say it itself. -/
def actionLabel : ScanAction → Text
  | .startPause => text "scan to start / pause"
  | .finish => text "scan to finish"
  | .yes => text "scan to finish: yes"
  | .no => text "scan to finish: no"
  | .choice n => text "scan to finish: answer " ++ decimal n
  | .finishChildren => text "scan to finish what is running"

def barcodes (job : PrintJob) (finishing : Bool) : List Op :=
  (job.barcodes.filter fun code ↦ finishes code.action == finishing).map fun code ↦
    .barcode code (code.label.getD (actionLabel code.action))

/-- `[x]` or `[ ]`. -/
def markText (done : Bool) : Text := if done then text "[x]" else text "[ ]"

/-- `Vec::join`. -/
def joined (separator : Text) (names : List Text) : Text := (names.intersperse separator).flatten

def sectionOps (row : SlipRow) (job : PrintJob) (cols : ℕ) : List Op :=
  match row.section_ with
  | .custom => if trim row.text = [] then [] else row.lines row.text cols
  | .boardTitle => [row.line (fit job.boardName (row.columns cols))]
  | .taskTitle =>
    -- The short id stays with the title and stays small.
    row.lines (trim job.title) cols ++ [.line ⟨'#' :: job.shortId.asStr, row.align, false, 1⟩]
  | .barcodeStart => barcodes job false
  | .barcodeFinish => barcodes job true
  | .description =>
    match job.description with
    | none => []
    | some description => (lines description).flatMap fun para ↦
      if trim para = [] then [.blank] else row.lines para cols
  | .checklist => job.checklist.flatMap fun item ↦ row.lines (markText item.done ++ ' ' :: item.text) cols
  | .startDate =>
    match job.startAt with
    | none => []
    | some start => dated row (text "Start") start job cols
  | .dueDate =>
    match job.dueAt with
    | none => []
    | some due => dated row (text "Due") due job cols
  | .creator =>
    match job.createdBy with
    | none => []
    | some creator => row.lines (text "By: " ++ creator) cols
  | .assignee =>
    match job.assignees with
    | none => []
    | some assignees => row.lines (text "For: " ++ joined (text ", ") assignees) cols
  | .dependencies =>
    match job.dependencies with
    | none => []
    | some deps => row.line (text "Depends on:") :: deps.map fun d ↦
      row.line (fit (markText d.done ++ ' ' :: d.shortId.asStr ++ ' ' :: d.title) (row.columns cols))
  | .sheet => job.sheet.flatMap fun entry ↦
    [row.line (fit ('#' :: entry.shortId.asStr ++ ' ' :: entry.title) (row.columns cols)),
      .barcode entry.barcode (entry.barcode.label.getD (text "scan to start"))]
  | .timestamp => [row.line (stamp job job.createdAt)]

/-- One row of the layout. A blank line stands between sections that put something on the paper. -/
def addRow (job : PrintJob) (cols : ℕ) (ops : List Op) (row : SlipRow) : List Op :=
  if row.enabled then
    let added := sectionOps row job cols
    if added ≠ [] ∧ ops ≠ [] then ops ++ .blank :: added else ops ++ added
  else ops

/-- Every code of a card with its label above. The heading is left out where the one label is the heading. -/
def codesCard (job : PrintJob) (cols : ℕ) : List Op :=
  let headingSaysItAll := match job.codes with
    | [line] => eqIgnoreAsciiCase (trim line.label) (trim job.title)
    | _ => false
  let heading := if headingSaysItAll then [] else [Op.line ⟨fit job.title cols, .center, true, 1⟩]
  let codes := job.codes.foldl (fun ops line ↦
    (if ops = [] then [] else ops ++ [.blank]) ++ [.barcode line.barcode line.label]) heading
  codes ++ [.finish]

/-- `plan`: a job laid out for a printer this many characters wide. -/
def plan (job : PrintJob) (cols : ℕ) (layout : SlipLayout) : List Op :=
  let cols := max cols 1
  if job.kind = .codes then codesCard job cols
  else layout.rows.foldl (addRow job cols) [] ++ [.finish]

/-! ### Wrapped and fitted text -/

theorem length_fit_le (s : Text) (cols : ℕ) : (fit s cols).length ≤ cols := by
  unfold fit
  split_ifs with h
  · simp only [List.length_append, List.length_dropLast, List.length_take, List.length_singleton]
    omega
  · simp only [List.length_take]
    omega

theorem length_drain_le {cols : ℕ} (hcols : 0 < cols) {steps : ℕ} {word : Text} (hsteps : word.length ≤ steps) :
    (∀ piece ∈ (drain cols steps word).1, piece.length ≤ cols) ∧ (drain cols steps word).2.length ≤ cols := by
  induction steps generalizing word with
  | zero =>
    refine ⟨by simp [drain], ?_⟩
    simp only [drain]
    omega
  | succ steps ih =>
    unfold drain
    split_ifs with hlong
    · have hlength : (word.drop cols).length ≤ steps := by
        rw [List.length_drop]
        omega
      have hrest := ih hlength
      refine ⟨fun piece hpiece ↦ ?_, hrest.2⟩
      rcases List.mem_cons.mp hpiece with rfl | hpiece
      · exact List.length_take_le _ _
      · exact hrest.1 piece hpiece
    · exact ⟨by simp, not_lt.mp hlong⟩

/-- No line is longer than the paper is wide, and neither is the one that is being filled. -/
structure Wrapping.Within (cols : ℕ) (state : Wrapping) : Prop where
  lines : ∀ line ∈ state.lines, line.length ≤ cols
  cur : state.cur.length ≤ cols

theorem Wrapping.Within.flush {cols : ℕ} {state : Wrapping} (h : state.Within cols) : state.flush.Within cols := by
  unfold Wrapping.flush
  split_ifs with hcur
  · exact h
  · refine ⟨fun line hline ↦ ?_, Nat.zero_le _⟩
    rcases List.mem_append.mp hline with hline | hline
    · exact h.lines line hline
    · exact (List.mem_singleton.mp hline) ▸ h.cur

theorem Wrapping.Within.wrapWord {cols : ℕ} (hcols : 0 < cols) {state : Wrapping} (h : state.Within cols)
    (word : Text) : (wrapWord cols state word).Within cols := by
  obtain ⟨hpieces, hrest⟩ := length_drain_le hcols (le_refl word.length)
  unfold Print.wrapWord
  generalize drain cols word.length word = drained at hpieces hrest ⊢
  obtain ⟨pieces, rest⟩ := drained
  dsimp only at hpieces hrest ⊢
  have hdrained : (if pieces = [] then state
      else { state.flush with lines := state.flush.lines ++ pieces }).Within cols := by
    split_ifs
    · exact h
    · refine ⟨fun line hline ↦ ?_, h.flush.cur⟩
      rcases List.mem_append.mp hline with hline | hline
      · exact h.flush.lines line hline
      · exact hpieces line hline
  generalize (if pieces = [] then state else { state.flush with lines := state.flush.lines ++ pieces }) = drained
    at hdrained ⊢
  have hroom : ∀ next : Wrapping, next.Within cols → (next.cur ≠ [] → next.cur.length + 1 + rest.length ≤ cols) →
      ({ next with cur := if next.cur = [] then rest else next.cur ++ ' ' :: rest } : Wrapping).Within cols := by
    intro next hnext hfits
    refine ⟨hnext.lines, ?_⟩
    dsimp only
    split_ifs with hcur
    · exact hrest
    · have := hfits hcur
      simp only [List.length_append, List.length_cons]
      omega
  by_cases hfull : drained.cur ≠ [] ∧ cols < drained.cur.length + 1 + rest.length
  · rw [if_pos hfull]
    exact hroom _ hdrained.flush fun hcur ↦ absurd (by simp [Wrapping.flush, hfull.1]) hcur
  · rw [if_neg hfull]
    exact hroom _ hdrained fun hcur ↦ not_lt.mp fun hlong ↦ hfull ⟨hcur, hlong⟩

/-- A wrapped line is not longer than the paper is wide. -/
theorem length_le_of_mem_wrap {s line : Text} {cols : ℕ} (hline : line ∈ wrap s cols) :
    line.length ≤ max cols 1 := by
  have hwords (words : List Text) (state : Wrapping) (h : state.Within (max cols 1)) :
      (words.foldl (wrapWord (max cols 1)) state).Within (max cols 1) := by
    induction words generalizing state with
    | nil => exact h
    | cons word rest ih => exact ih _ (h.wrapWord (by omega) word)
  exact (hwords (splitWhitespace s) ⟨[], []⟩ ⟨by simp, Nat.zero_le _⟩).flush.lines line hline

/-! ### What fits on the paper -/

/-- What an operation puts on the paper as text, with the columns one character takes. Text output has a label
and its payload on one line. -/
def Op.texts (output : OutputMode) : Op → List (Text × ℕ)
  | .line l => [(l.text, l.scale)]
  | .blank | .finish => []
  | .barcode code label =>
    if output = .text then [(label ++ text ": " ++ code.payload, 1)] else [(label, 1), (code.payload, 1)]

/-- No text of the operation runs off the paper. -/
def Op.Fits (output : OutputMode) (cols : ℕ) (op : Op) : Prop := ∀ t ∈ op.texts output, t.1.length * t.2 ≤ cols

/-- No text of the operations runs off the paper. -/
def Fits (output : OutputMode) (cols : ℕ) (ops : List Op) : Prop := ∀ op ∈ ops, op.Fits output cols

instance decidableOpFits (output : OutputMode) (cols : ℕ) (op : Op) : Decidable (op.Fits output cols) :=
  inferInstanceAs (Decidable (∀ t ∈ op.texts output, t.1.length * t.2 ≤ cols))

instance decidableFits (output : OutputMode) (cols : ℕ) (ops : List Op) : Decidable (Fits output cols ops) :=
  inferInstanceAs (Decidable (∀ op ∈ ops, op.Fits output cols))

/-- A code and its label fit on the paper. -/
def CodeFits (output : OutputMode) (cols : ℕ) (code : Barcode) (label : Text) : Prop :=
  if output = .text then label.length + 2 + code.payload.length ≤ cols
  else label.length ≤ cols ∧ code.payload.length ≤ cols

/-- The line with the date alone fits at body size. -/
def DateFits (cols : ℕ) (job : PrintJob) (label : Text) (moment : Instant) : Prop :=
  label.length + 2 + (dateText (job.timezone.dateAt moment)).length ≤ cols

/-- What a row of the layout prints fits on the paper. -/
def RowFits (output : OutputMode) (cols : ℕ) (job : PrintJob) (row : SlipRow) : Prop :=
  match row.section_ with
  | .barcodeStart => ∀ code ∈ job.barcodes, finishes code.action = false →
      CodeFits output cols code (code.label.getD (actionLabel code.action))
  | .barcodeFinish => ∀ code ∈ job.barcodes, finishes code.action = true →
      CodeFits output cols code (code.label.getD (actionLabel code.action))
  | .startDate => ∀ start ∈ job.startAt, DateFits cols job (text "Start") start
  | .dueDate => ∀ due ∈ job.dueAt, DateFits cols job (text "Due") due
  | .dependencies => job.dependencies ≠ none → 11 * row.scale ≤ cols
  | .sheet => ∀ entry ∈ job.sheet,
      CodeFits output cols entry.barcode (entry.barcode.label.getD (text "scan to start"))
  | .timestamp => (stamp job job.createdAt).length * row.scale ≤ cols
  | _ => True

variable {output : OutputMode} {cols : ℕ}

@[simp] theorem fits_nil : Fits output cols [] := by simp [Fits]

@[simp] theorem fits_cons {op : Op} {ops : List Op} :
    Fits output cols (op :: ops) ↔ op.Fits output cols ∧ Fits output cols ops := by
  simp [Fits]

@[simp] theorem fits_append {ops more : List Op} :
    Fits output cols (ops ++ more) ↔ Fits output cols ops ∧ Fits output cols more := by
  simp [Fits, or_imp, forall_and]

@[simp] theorem fits_flatMap {α : Type} {f : α → List Op} {entries : List α} :
    Fits output cols (entries.flatMap f) ↔ ∀ entry ∈ entries, Fits output cols (f entry) := by
  induction entries with
  | nil => simp
  | cons entry rest ih => simp [ih]

@[simp] theorem fits_map {α : Type} {f : α → Op} {entries : List α} :
    Fits output cols (entries.map f) ↔ ∀ entry ∈ entries, (f entry).Fits output cols := by
  simp [Fits]

@[simp] theorem fits_blank : Op.blank.Fits output cols := by simp [Op.Fits, Op.texts]

@[simp] theorem fits_finish : Op.finish.Fits output cols := by simp [Op.Fits, Op.texts]

@[simp] theorem fits_textLine {l : TextLine} : (Op.line l).Fits output cols ↔ l.text.length * l.scale ≤ cols := by
  simp [Op.Fits, Op.texts]

@[simp] theorem fits_barcode {code : Barcode} {label : Text} :
    (Op.barcode code label).Fits output cols ↔ CodeFits output cols code label := by
  have hseparator : (text ": ").length = 2 := rfl
  unfold Op.Fits Op.texts CodeFits
  split_ifs
  · simp [hseparator, add_assoc]
  · simp

/-- A line as long as a row has columns fits at the row's size. -/
theorem SlipRow.mul_scale_le {row : SlipRow} (hcols : 2 ≤ cols) {length : ℕ} (h : length ≤ row.columns cols) :
    length * row.scale ≤ cols := by
  have hscale : row.scale = 1 ∨ row.scale = 2 := by
    unfold SlipRow.scale
    cases row.large <;> simp
  unfold SlipRow.columns at h
  rcases hscale with hscale | hscale <;>
    · rw [hscale] at h ⊢
      omega

/-- Wrapped lines of a row fit, whatever the text. -/
theorem fits_lines {row : SlipRow} (hcols : 2 ≤ cols) (t : Text) : Fits output cols (row.lines t cols) := by
  rw [SlipRow.lines, fits_map]
  intro line hline
  have hlength : line.length ≤ row.columns cols := by
    have hwrapped := length_le_of_mem_wrap hline
    have hsome : 1 ≤ row.columns cols := le_max_right _ _
    omega
  simpa [SlipRow.line] using row.mul_scale_le hcols hlength

@[simp] theorem fits_line {row : SlipRow} {t : Text} :
    (row.line t).Fits output cols ↔ t.length * row.scale ≤ cols := fits_textLine

theorem fits_fit {row : SlipRow} (hcols : 2 ≤ cols) (t : Text) :
    (row.line (fit t (row.columns cols))).Fits output cols :=
  fits_line.mpr (row.mul_scale_le hcols (length_fit_le _ _))

/-! ### Dates -/

theorem length_padded_le (width n : ℕ) : width ≤ (padded width n).length := by
  simp only [padded, List.length_leftpad]
  exact le_max_left _ _

theorem four_le_length_yearText (year : ℤ) : 4 ≤ (yearText year).length := by
  unfold yearText
  split_ifs
  · exact length_padded_le _ _
  all_goals
    rw [List.length_cons]
    have := length_padded_le 4 year.natAbs
    omega

theorem ten_le_length_dateText (date : CivilDate) : 10 ≤ (dateText date).length := by
  have hyear := four_le_length_yearText date.year
  have hmonth := length_padded_le 2 date.month.natAbs
  have hday := length_padded_le 2 date.day.natAbs
  simp only [dateText, List.length_append, List.length_cons]
  omega

theorem length_timeText (naive : WallClock) : (timeText naive).length = 5 := by
  have hpadded : ∀ n < 60, (padded 2 n).length = 2 := by decide +kernel
  have hhour : (naive % 86400 / 3600).natAbs < 60 := by omega
  have hminute : (naive % 3600 / 60).natAbs < 60 := by omega
  simp [timeText, hpadded _ hhour, hpadded _ hminute]

/-- The date is what stands before the blank. -/
theorem not_mem_dateText (date : CivilDate) : ' ' ∉ dateText date := by
  have hpadded (width n : ℕ) : ' ' ∉ padded width n := by
    intro h
    rcases List.mem_append.mp h with hzero | hdigit
    · exact absurd (List.eq_of_mem_replicate hzero) (by decide)
    · exact absurd (isDigit_of_mem_decimal hdigit) (by decide)
  have hyear : ' ' ∉ yearText date.year := by
    unfold yearText
    split_ifs <;> simp [hpadded]
  simp [dateText, hyear, hpadded]

theorem stamp_date (job : PrintJob) (moment : Instant) :
    (stamp job moment).takeWhile (· ≠ ' ') = dateText (job.timezone.dateAt moment) ∧
      ((stamp job moment).dropWhile (· ≠ ' ')).drop 1 = timeText (job.timezone.toLocal moment) := by
  have hdate : ∀ c ∈ dateText (job.timezone.dateAt moment), decide (c ≠ ' ') = true := by
    intro c hc
    rw [decide_eq_true_eq]
    rintro rfl
    exact not_mem_dateText _ hc
  unfold stamp
  rw [List.takeWhile_append_of_pos hdate, List.dropWhile_append_of_pos hdate]
  simp

/-- A date fits at all exactly where it fits alone at body size: what does not fit is broken, and what is broken
and still does not fit becomes small. -/
theorem fits_dated {row : SlipRow} {label : Text} {moment : Instant} {job : PrintJob} (hcols : 9 ≤ cols)
    (hlabel : 3 ≤ label.length) :
    Fits output cols (dated row label moment job cols) ↔ DateFits cols job label moment := by
  obtain ⟨hdate, htime⟩ := stamp_date job moment
  have hdateLength := ten_le_length_dateText (job.timezone.dateAt moment)
  have htimeLength := length_timeText (job.timezone.toLocal moment)
  have hseparator : (text ": ").length = 2 := rfl
  have hat : (text "At: ").length = 4 := rfl
  have hstamp : (stamp job moment).length = (dateText (job.timezone.dateAt moment)).length + 6 := by
    simp [stamp, htimeLength]
  have hcolumns : row.columns cols ≤ cols := by
    have := row.mul_scale_le (by omega) (le_refl (row.columns cols))
    have hscale : 1 ≤ row.scale := by
      unfold SlipRow.scale
      cases row.large <;> simp
    exact le_trans (Nat.le_mul_of_pos_right _ hscale) this
  unfold dated DateFits
  simp only [hdate, htime]
  generalize hplain : ({ row with bold := false } : SlipRow) = plain
  have hsame : plain.columns cols = row.columns cols ∧ plain.scale = row.scale := by
    subst hplain
    exact ⟨rfl, rfl⟩
  split_ifs with hwhole hbroken htime' htime'
  · simp only [List.length_append, hseparator, hstamp] at hwhole
    have hfits : (label ++ text ": " ++ stamp job moment).length * row.scale ≤ cols := by
      apply row.mul_scale_le (by omega)
      simpa [hseparator, hstamp, add_assoc] using hwhole
    simp only [fits_cons, fits_line, hfits, fits_nil, and_self, true_iff]
    omega
  · simp [htime'] at htimeLength
  · have hsmall (part : SlipSection) (enabled bold centered : Bool) (words : Text) :
        (⟨part, enabled, bold, false, centered, words⟩ : SlipRow).scale = 1 := rfl
    simp only [fits_cons, fits_line, hsmall, mul_one, fits_nil, and_true, List.length_append, hseparator, hat,
      htimeLength]
    omega
  · simp [htime'] at htimeLength
  · have hfits := plain.mul_scale_le (by omega) (not_lt.mp hbroken)
    have hat' : (text "At: " ++ timeText (job.timezone.toLocal moment)).length * plain.scale ≤ cols := by
      apply plain.mul_scale_le (by omega)
      simp only [List.length_append, hseparator, hat, htimeLength] at hbroken ⊢
      omega
    simp only [fits_cons, fits_line, hfits, hat', fits_nil, and_self, true_iff]
    simp only [List.length_append, hseparator] at hbroken
    omega

/-! ### Rows and plans -/

theorem fits_barcodes {job : PrintJob} {finishing : Bool} :
    Fits output cols (barcodes job finishing) ↔
      ∀ code ∈ job.barcodes, finishes code.action = finishing →
        CodeFits output cols code (code.label.getD (actionLabel code.action)) := by
  simp [barcodes]

theorem fits_sectionOps_iff {row : SlipRow} {job : PrintJob} (hcols : 9 ≤ cols) :
    Fits output cols (sectionOps row job cols) ↔ RowFits output cols job row := by
  have htwo : 2 ≤ cols := by omega
  unfold sectionOps RowFits
  cases row.section_ with
  | custom =>
    dsimp only
    split_ifs <;> simp [fits_lines htwo]
  | boardTitle => simpa using row.mul_scale_le htwo (length_fit_le job.boardName _)
  | taskTitle =>
    have hid : 7 ≤ cols := by omega
    simpa [fits_lines htwo] using hid
  | barcodeStart | barcodeFinish => exact fits_barcodes
  | description =>
    cases job.description with
    | none => simp
    | some description =>
      simp only [fits_flatMap, iff_true]
      intro para _
      split_ifs
      · simp
      · exact fits_lines htwo para
  | checklist => simp [fits_lines htwo]
  | startDate =>
    cases job.startAt with
    | none => simp
    | some start => simpa using fits_dated hcols (by decide)
  | dueDate =>
    cases job.dueAt with
    | none => simp
    | some due => simpa using fits_dated hcols (by decide)
  | creator =>
    cases job.createdBy with
    | none => simp
    | some creator => simpa using fits_lines htwo _
  | assignee =>
    cases job.assignees with
    | none => simp
    | some assignees => simpa using fits_lines htwo _
  | dependencies =>
    cases job.dependencies with
    | none => simp
    | some deps =>
      have hheading : (text "Depends on:").length = 11 := rfl
      have hdeps : Fits output cols (deps.map fun d ↦
          row.line (fit (markText d.done ++ ' ' :: d.shortId.asStr ++ ' ' :: d.title) (row.columns cols))) :=
        fits_map.mpr fun d _ ↦ fits_fit htwo _
      rw [fits_cons, fits_line, hheading]
      exact ⟨fun h _ ↦ h.1, fun h ↦ ⟨h (by simp), hdeps⟩⟩
  | sheet =>
    simp only [fits_flatMap, fits_cons, fits_barcode, fits_nil, and_true]
    exact forall₂_congr fun entry _ ↦ and_iff_right (fits_fit htwo _)
  | timestamp => simp

theorem fits_addRow_iff {ops : List Op} {row : SlipRow} {job : PrintJob} (hcols : 9 ≤ cols) :
    Fits output cols (addRow job cols ops row) ↔
      Fits output cols ops ∧ (row.enabled = true → RowFits output cols job row) := by
  unfold addRow
  dsimp only
  split_ifs with henabled hgap
  · simp [fits_sectionOps_iff hcols, henabled]
  · simp [fits_sectionOps_iff hcols, henabled]
  · simp [henabled]

theorem fits_rows_iff {rows : List SlipRow} {ops : List Op} {job : PrintJob} (hcols : 9 ≤ cols) :
    Fits output cols (rows.foldl (addRow job cols) ops) ↔
      Fits output cols ops ∧ ∀ row ∈ rows, row.enabled = true → RowFits output cols job row := by
  induction rows generalizing ops with
  | nil => simp
  | cons row rest ih => simp only [List.foldl_cons, ih, fits_addRow_iff hcols, List.forall_mem_cons, and_assoc]

theorem fits_codes_iff {codes : List CodeLine} {ops : List Op} :
    Fits output cols (codes.foldl (fun ops line ↦
        (if ops = [] then [] else ops ++ [.blank]) ++ [.barcode line.barcode line.label]) ops) ↔
      Fits output cols ops ∧ ∀ line ∈ codes, CodeFits output cols line.barcode line.label := by
  induction codes generalizing ops with
  | nil => simp
  | cons line rest ih =>
    have hops : Fits output cols (if ops = [] then [] else ops ++ [.blank]) ↔ Fits output cols ops := by
      split_ifs with hempty
      · simp [hempty]
      · simp
    simp only [List.foldl_cons, ih, fits_append, hops, fits_cons, fits_barcode, fits_nil, and_true,
      List.forall_mem_cons, and_assoc]

/-- When a job fits on the paper of a printer. What is not wrapped has to be short enough by itself: labels and
payloads of the codes, the date alone, the heading of the dependencies and the timestamp at the size of their
rows. -/
theorem plan_fits_iff (job : PrintJob) (layout : SlipLayout) (profile : DeviceProfile) :
    Fits profile.output profile.columns (plan job profile.columns layout) ↔
      if job.kind = .codes then
        ∀ line ∈ job.codes, CodeFits profile.output profile.columns line.barcode line.label
      else
        ∀ row ∈ layout.rows, row.enabled = true → RowFits profile.output profile.columns job row := by
  have hcols := profile.nine_le_columns
  have hone : max profile.columns 1 = profile.columns := max_eq_left (by omega)
  unfold plan
  dsimp only
  rw [hone]
  split_ifs
  · unfold codesCard
    dsimp only
    rw [fits_append, fits_codes_iff]
    have hheading (heading : Bool) : Fits profile.output profile.columns
        (if heading then [] else [Op.line ⟨fit job.title profile.columns, .center, true, 1⟩]) := by
      cases heading
      · simpa using length_fit_le job.title profile.columns
      · simp
    simp [hheading]
  · rw [fits_append, fits_rows_iff hcols]
    simp

/-- A receipt of a task with a question, whose answer goes into the label of its code as it is. -/
def askingJob : PrintJob where
  kind := .task
  shortId := ShortId.fromIndex 0
  boardName := text "Kitchen"
  title := text "Water"
  description := none
  startAt := none
  dueAt := none
  dependencies := none
  createdBy := none
  assignees := none
  checklist := []
  barcodes := [⟨.choice 1, text "..11000000N", .code39, some (text "scan to finish: the plants look healthy"), false⟩]
  sheet := []
  codes := []
  timezone := Zone.utc
  createdAt := 0

/-- Out of the box, on paper of 80 mm: the label of 39 characters runs off the 35 columns of a drawn slip. -/
theorem plan_runs_off :
    ¬ Fits .bitmap (OutputMode.columns .mm80 .bitmap)
      (plan askingJob (OutputMode.columns .mm80 .bitmap) SlipLayout.task) := by
  decide +kernel

end Taskologic.Print
