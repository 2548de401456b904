import Taskologic.Core.CodesMenu

/-!
# The Print codes panel

`CodesPanel.step` is what the panel does on one action: going through the menu, combining a code with a value, asking
for what an entry needs, and printing. `panelRun` is a whole sitting at the panel, action by action.

What is printed is read back by the scanner, with one exception (`panel_reads_back_iff`): a text that is asked for
a command of the next scanned task, with one of the two boxes checked. The box puts a command behind the text, and the
text swallows it.

Scope. Keys, clicks and the focus come down to the actions they stand for. The labels on the slip are left out.
-/

set_option autoImplicit false
set_option relaxedAutoImplicit false

namespace Taskologic.Client

open Library Core

/-- `column_options`: every column a code can name. -/
def columnOptions : List ColumnRef :=
  [.todo, .paused, .doing, .finished] ++ (List.range' 1 9).map .index ++ [.last]

/-- A question the panel asks before it can print. -/
structure Ask where
  kind : Asks
  /-- The commands the answer is appended to. -/
  base : List Control
  stickyOk : Bool
  minus : Bool
  /-- Set on the first of two offsets: the sign the second one takes. -/
  thenMinus : Option Bool
  text : Text
  unit : TimeUnit
  /-- The highlighted column. -/
  sel : ℕ
  deriving DecidableEq, Repr

inductive View where
  | categories
  | entries (category : Category)
  /-- Picking a value to append to `base`. -/
  | combine (category : Category) (base : List Control) (stickyOk : Bool)
  | ask (category : Category) (ask : Ask)
  deriving DecidableEq, Repr

structure CodesPanel where
  view : View
  /-- The selected row of the list. -/
  selected : Option ℕ
  sticky : Bool
  onSelected : Bool
  error : Option Text
  deriving DecidableEq, Repr

/-- `CodesOutcome`: nothing to hand over, the end, or the codes of one slip. `panicked` is a question that cannot be
asked. -/
inductive CodesOutcome where
  | changed
  | cancel
  | print (codes : List (List Control))
  | panicked
  deriving DecidableEq, Repr

/-- What a person does at the panel. -/
inductive PanelAction where
  | select (row : Option ℕ)
  /-- Enter, a button or a double click on the selected row. -/
  | openSelected
  | combine
  | all
  | flipSticky
  | flipSelected
  | back
  | close
  | typeText (t : Text)
  | chooseUnit (unit : TimeUnit)
  | columnUp
  | columnDown
  /-- Enter in an ask. -/
  | answer
  deriving DecidableEq, Repr

/-- `str::split_once` with a piece that is not empty. -/
def splitOnce (piece : Text) : Text → Option (Text × Text)
  | [] => none
  | c :: rest =>
    match stripStart piece (c :: rest) with
    | some after => some ([], after)
    | none => (splitOnce piece rest).map fun split ↦ (c :: split.1, split.2)

/-- The signs in the label of a pair of offsets: the start's and the due date's are minus. -/
def pairSigns (label : Text) : Bool × Bool :=
  match splitOnce (text ", start ") label with
  | none => (false, false)
  | some (_, rest) =>
    match splitOnce (text ", due ") rest with
    | none => (false, false)
    | some (start, due) => (decide (start = text "minus"), decide (due = text "minus"))

namespace CodesPanel

/-- `CodesPanel::new`. -/
def new : CodesPanel := ⟨.categories, some 0, false, false, none⟩

/-- The boxes that are checked, as commands. -/
def modifiers (panel : CodesPanel) (stickyOk : Bool) : List Control :=
  (if stickyOk && panel.sticky then [.sticky] else []) ++ (if stickyOk && panel.onSelected then [.selected] else [])

/-- `print_one`: the finished code. -/
def printOne (panel : CodesPanel) (commands : List Control) (stickyOk : Bool) : CodesOutcome :=
  .print [commands ++ panel.modifiers stickyOk]

/-- `open_ask`. -/
def openAsk (panel : CodesPanel) (category : Category) (kind : Asks) (base : List Control) (stickyOk minus : Bool)
    (thenMinus : Option Bool) : CodesPanel :=
  { panel with
    view := .ask category
      { kind, base, stickyOk, minus, thenMinus
        text := if kind = .offset then ['1'] else if kind = .count then ['2'] else []
        unit := .hours
        sel := 0 }
    error := none }

/-- `choose_entry`: prints an entry, or asks first. -/
def chooseEntry (panel : CodesPanel) (category : Category) (e : Entry) : CodesPanel × CodesOutcome :=
  match e.asks with
  | .nothing => (panel, panel.printOne e.commands e.sticky)
  | .offsetPair =>
    let (start, due) := pairSigns e.label
    (panel.openAsk category .offset e.commands e.sticky start (some due), .changed)
  | kind => (panel.openAsk category kind e.commands e.sticky (contains e.label (text "inus")) none, .changed)

/-- The panel says what is wrong with an answer. -/
def refuse (panel : CodesPanel) (message : String) : CodesPanel × CodesOutcome :=
  ({ panel with error := some (text message) }, .changed)

/-- The answer is appended: the next offset of a pair is asked for, or the code is printed. -/
def append (panel : CodesPanel) (category : Category) (ask : Ask) (commands : List Control) (added : Control) :
    CodesPanel × CodesOutcome :=
  match ask.thenMinus with
  | some minus =>
    (panel.openAsk category .offset (commands ++ [added, .value .split]) ask.stickyOk minus none, .changed)
  | none =>
    let panel := { panel with view := .entries category }
    (panel, panel.printOne (commands ++ [added]) ask.stickyOk)

/-- The arms of `finish_ask`, by what is asked. -/
def answer (panel : CodesPanel) (category : Category) (ask : Ask) : CodesPanel × CodesOutcome :=
  let t := trim ask.text
  match ask.kind with
  | .key =>
    match t with
    | [c] => panel.append category ask ask.base (.key c)
    | _ => panel.refuse "one key: a single character"
  | .text =>
    if t = [] then panel.refuse "type the text first"
    else panel.append category ask ask.base (.value (.text t))
  | .offset =>
    match parseUnsigned 32 t with
    | some (n + 1) => panel.append category ask ask.base
        (.value (if ask.minus then .minus (n + 1) ask.unit else .plus (n + 1) ask.unit))
    | _ => panel.refuse "a whole number, at least 1"
  | .column =>
    match columnOptions[ask.sel]? with
    | none => (panel, .panicked)
    | some column =>
      -- A "move to" that asked for its column becomes the code with it.
      let base := if ask.base.getLast? = some (.moveTo none) then ask.base.dropLast else ask.base
      panel.append category ask base (.moveTo (some column))
  | .count =>
    match parseUnsigned 8 t with
    | none => panel.refuse "a whole number, 1 to 99"
    | some n =>
      if 1 ≤ n ∧ n ≤ 99 then
        match ask.base.getLast? with
        | some (.named k) => panel.append category ask ask.base.dropLast (.namedTimes k n)
        | _ => (panel, .changed)
      else panel.refuse "a whole number, 1 to 99"
  | .nothing | .offsetPair => (panel, .panicked)

/-- `finish_ask`. -/
def finishAsk (panel : CodesPanel) : CodesPanel × CodesOutcome :=
  match panel.view with
  | .ask category ask => panel.answer category ask
  | _ => (panel, .changed)

/-- The entry of a category that is selected. -/
def selectedEntry (panel : CodesPanel) (category : Category) : Option Entry :=
  panel.selected.bind fun row ↦ (Core.entries category)[row]?

/-- `open_selected`. -/
def openSelected (panel : CodesPanel) : CodesPanel × CodesOutcome :=
  match panel.view with
  | .categories =>
    match panel.selected.bind fun row ↦ Category.all[row]? with
    | some category => ({ panel with view := .entries category, selected := some 0, error := none }, .changed)
    | none => (panel, .changed)
  | .entries category =>
    match panel.selectedEntry category with
    | some e => panel.chooseEntry category e
    | none => (panel, .changed)
  | .combine category base stickyOk =>
    match panel.selectedEntry .values with
    | none => (panel, .changed)
    | some v =>
      if v.asks = .nothing then
        let panel := { panel with view := .entries category }
        (panel, panel.printOne (base ++ v.commands) stickyOk)
      else
        (panel.openAsk category v.asks base stickyOk ((text "Minus").isPrefixOf v.label) none, .changed)
  | .ask _ _ => (panel, .changed)

/-- `back`, and Esc in an ask. -/
def back (panel : CodesPanel) : CodesPanel × CodesOutcome :=
  match panel.view with
  | .categories => (panel, .cancel)
  | .entries category =>
    ({ panel with view := .categories, selected := some (Category.all.idxOf category), error := none }, .changed)
  | .combine category _ _ => ({ panel with view := .entries category, error := none }, .changed)
  | .ask category _ => ({ panel with view := .entries category }, .changed)

/-- The combine button: a finished code waits for a value. -/
def combine (panel : CodesPanel) : CodesPanel × CodesOutcome :=
  match panel.view with
  | .entries category =>
    match panel.selectedEntry category with
    | some e =>
      if e.asks = .nothing ∧ e.commands ≠ [] then
        ({ panel with view := .combine category e.commands e.sticky, selected := some 0, error := none }, .changed)
      else panel.refuse "combine a finished code; this one asks first"
    | none => (panel, .changed)
  | _ => (panel, .changed)

/-- The codes of a category that print without asking. -/
def allCodes (panel : CodesPanel) (category : Category) : List (List Control) :=
  ((Core.entries category).filter fun e ↦ e.asks == .nothing).map fun e ↦ e.commands ++ panel.modifiers e.sticky

/-- The button that prints them all. -/
def printAll (panel : CodesPanel) : CodesPanel × CodesOutcome :=
  match panel.view with
  | .entries category =>
    if panel.allCodes category = [] then panel.refuse "nothing here prints without asking"
    else (panel, .print (panel.allCodes category))
  | _ => (panel, .changed)

/-- An ask takes the change, another view does not. -/
def inAsk (panel : CodesPanel) (f : Ask → Ask) : CodesPanel :=
  match panel.view with
  | .ask category ask => { panel with view := .ask category (f ask) }
  | _ => panel

/-- A view that is no ask takes the change. -/
def outsideAsk (panel : CodesPanel) (f : CodesPanel → CodesPanel) : CodesPanel :=
  match panel.view with
  | .ask _ _ => panel
  | _ => f panel

/-- `handle`: what the panel does on an action. -/
def step (panel : CodesPanel) : PanelAction → CodesPanel × CodesOutcome
  | .select row => ({ panel with selected := row }, .changed)
  | .openSelected => panel.openSelected
  | .combine => panel.combine
  | .all => panel.printAll
  | .flipSticky => (panel.outsideAsk fun p ↦ { p with sticky := !p.sticky }, .changed)
  | .flipSelected => (panel.outsideAsk fun p ↦ { p with onSelected := !p.onSelected }, .changed)
  | .back => panel.back
  | .close => (panel, .cancel)
  | .typeText t => (panel.inAsk fun ask ↦ { ask with text := t }, .changed)
  | .chooseUnit unit => (panel.inAsk fun ask ↦ { ask with unit }, .changed)
  | .columnUp => (panel.inAsk fun ask ↦ { ask with sel := ask.sel - 1 }, .changed)
  | .columnDown => (panel.inAsk fun ask ↦ { ask with sel := min (ask.sel + 1) (columnOptions.length - 1) }, .changed)
  | .answer => panel.finishAsk

end CodesPanel

/-- A sitting at the panel: every action with the panel it found and what came of it. -/
def panelRun (panel : CodesPanel) : List PanelAction → List (CodesPanel × PanelAction × CodesOutcome)
  | [] => []
  | action :: rest => (panel, action, (panel.step action).2) :: panelRun (panel.step action).1 rest

/-- The lists of commands that an outcome prints. -/
def CodesOutcome.printed : CodesOutcome → List (List Control)
  | print codes => codes
  | _ => []

/-- An answer in the terms of the panel: a key other than slash and dash, or text without a frame. -/
def AllowedAnswer (panel : CodesPanel) (action : PanelAction) : Prop :=
  action = .answer → ∀ category ask, panel.view = .ask category ask →
    (ask.kind = .key → trim ask.text ≠ [joinChar] ∧ trim ask.text ≠ [frameChar]) ∧
      (ask.kind = .text → Framable frameChar (trim ask.text))

instance (panel : CodesPanel) (action : PanelAction) : Decidable (AllowedAnswer panel action) :=
  match hview : panel.view with
  | .ask _ ask =>
    decidable_of_iff (action = .answer →
      (ask.kind = .key → trim ask.text ≠ [joinChar] ∧ trim ask.text ≠ [frameChar]) ∧
        (ask.kind = .text → Framable frameChar (trim ask.text))) (by simp [AllowedAnswer, hview])
  | .categories | .entries _ | .combine .. => isTrue (by simp [AllowedAnswer, hview])

/-- A text is answered where a box puts a command behind it. -/
def Swallows (panel : CodesPanel) (action : PanelAction) : Prop :=
  action = .answer ∧ ∃ category ask, panel.view = .ask category ask ∧ ask.kind = .text ∧ trim ask.text ≠ [] ∧
    ask.stickyOk = true ∧ (panel.sticky = true ∨ panel.onSelected = true)

/-! ### What the panel keeps -/

/-- A question that can be asked, about commands that are plain. -/
structure Ask.Sound (ask : Ask) : Prop where
  base : ∀ command ∈ ask.base, command.Plain
  kind : ask.kind ≠ .nothing ∧ ask.kind ≠ .offsetPair
  /-- How many times is asked about a key. -/
  count : ask.kind = .count → ∃ k, ask.base = [.named k] ∧ ∀ n, 1 ≤ n → n ≤ 99 → (Control.namedTimes k n).Plain
  pair : ask.thenMinus ≠ none → ask.kind = .offset
  sel : ask.sel < columnOptions.length

def View.Sound : View → Prop
  | .categories | .entries _ => True
  | .combine _ base _ => (∀ command ∈ base, command.Plain) ∧ base ≠ []
  | .ask _ question => question.Sound

/-- The panel went on to a view that is sound, and all it printed is read back. -/
structure Fine (result : CodesPanel × CodesOutcome) : Prop where
  view : result.1.view.Sound
  printed : ∀ commands ∈ result.2.printed, ReadsBack commands

/-- What an entry asks is a question that can be asked about its commands. -/
theorem entries_asks (category : Category) :
    ∀ e ∈ entries category, e.asks = .count → e.commands = [.named .tab] ∨ e.commands = [.named .backTab] := by
  cases category <;> decide +kernel

/-- A value asks for nothing, an offset or a text. -/
theorem values_asks : ∀ e ∈ entries .values, e.asks = .nothing ∨ e.asks = .offset ∨ e.asks = .text := by
  decide +kernel

theorem namedTimes_plain {k : NamedKey} (hk : k = .tab ∨ k = .backTab) {n : ℕ} (hlow : 1 ≤ n) (hhigh : n ≤ 99) :
    (Control.namedTimes k n).Plain := by
  rcases hk with rfl | rfl <;> exact ⟨⟨hlow, hhigh⟩, by simp [Control.IsText], by simp⟩

theorem columnOptions_plain : ∀ column ∈ columnOptions, (Control.moveTo (some column)).Plain := by decide

theorem plain_append {commands more : List Control} (hcommands : ∀ command ∈ commands, command.Plain)
    (hmore : ∀ command ∈ more, command.Plain) : ∀ command ∈ commands ++ more, command.Plain :=
  List.forall_mem_append.mpr ⟨hcommands, hmore⟩

namespace CodesPanel

variable {panel : CodesPanel} {category : Category}

theorem modifiers_plain (stickyOk : Bool) : ∀ command ∈ panel.modifiers stickyOk, command.Plain := by
  have hall (sticky onSelected : Bool) : ∀ command ∈
      ((if sticky then [.sticky] else []) ++ (if onSelected then [.selected] else []) : List Control),
      command.Plain := by
    revert sticky onSelected
    decide
  exact hall _ _

theorem modifiers_eq_nil_iff {stickyOk : Bool} :
    panel.modifiers stickyOk = [] ↔ ¬ (stickyOk = true ∧ (panel.sticky = true ∨ panel.onSelected = true)) := by
  unfold modifiers
  cases stickyOk <;> cases panel.sticky <;> cases panel.onSelected <;> simp

/-- Plain commands are printed so that they are read back, whatever the boxes. -/
theorem readsBack_printOne {commands : List Control} {stickyOk : Bool} (hplain : ∀ command ∈ commands, command.Plain)
    (hsome : commands ≠ []) : ∀ printed ∈ (panel.printOne commands stickyOk).printed, ReadsBack printed := by
  intro printed hprinted
  cases List.mem_singleton.mp hprinted
  exact readsBack_of_plain (plain_append hplain (modifiers_plain stickyOk)) (by simp [hsome])

/-- A text is read back where no box puts a command behind it. -/
theorem readsBack_printOne_text {commands : List Control} {stickyOk : Bool} {t : Text}
    (hplain : ∀ command ∈ commands, command.Plain) (ht : Framable frameChar t) :
    (∀ printed ∈ (panel.printOne (commands ++ [.value (.text t)]) stickyOk).printed, ReadsBack printed) ↔
      panel.modifiers stickyOk = [] := by
  have hprinted : (panel.printOne (commands ++ [.value (.text t)]) stickyOk).printed =
      [commands ++ .value (.text t) :: panel.modifiers stickyOk] := by
    simp [printOne, CodesOutcome.printed]
  rw [hprinted, List.forall_mem_singleton]
  constructor
  · intro hread
    by_contra hmore
    exact not_readsBack_of_text hmore hread
  · intro hnone
    rw [hnone]
    exact readsBack_append_text hplain ht

theorem openAsk_sound {kind : Asks} {base : List Control} {stickyOk minus : Bool} {thenMinus : Option Bool}
    (hbase : ∀ command ∈ base, command.Plain) (hkind : kind ≠ .nothing ∧ kind ≠ .offsetPair)
    (hcount : kind = .count → base = [.named .tab] ∨ base = [.named .backTab])
    (hpair : thenMinus ≠ none → kind = .offset) :
    (panel.openAsk category kind base stickyOk minus thenMinus).view.Sound where
  base := hbase
  kind := hkind
  count := by
    intro h
    rcases hcount h with rfl | rfl
    · exact ⟨_, rfl, fun n ↦ namedTimes_plain (.inl rfl)⟩
    · exact ⟨_, rfl, fun n ↦ namedTimes_plain (.inr rfl)⟩
  pair := hpair
  sel := (by decide : 0 < columnOptions.length)

theorem chooseEntry_fine {e : Entry} (he : e ∈ Core.entries category) (hview : panel.view.Sound) :
    Fine (panel.chooseEntry category e) := by
  obtain ⟨hplain, hsome⟩ := entries_plain category e he
  cases hasks : e.asks with
  | nothing =>
    simp only [chooseEntry, hasks]
    exact ⟨hview, readsBack_printOne hplain (hsome hasks)⟩
  | offsetPair =>
    simp only [chooseEntry, hasks]
    exact ⟨openAsk_sound hplain (by decide) (by simp) (fun _ ↦ rfl), by simp [CodesOutcome.printed]⟩
  | column | offset | key | text =>
    simp only [chooseEntry, hasks]
    exact ⟨openAsk_sound hplain (by decide) (by simp) (by simp), by simp [CodesOutcome.printed]⟩
  | count =>
    simp only [chooseEntry, hasks]
    exact ⟨openAsk_sound hplain (by decide) (fun _ ↦ entries_asks category e he hasks) (by simp),
      by simp [CodesOutcome.printed]⟩

theorem mem_entries_of_selectedEntry {e : Entry} (h : panel.selectedEntry category = some e) :
    e ∈ Core.entries category := by
  obtain ⟨row, -, hrow⟩ := Option.bind_eq_some_iff.mp h
  exact List.mem_of_getElem? hrow

/-- Nothing was printed. -/
theorem fine_changed (hview : panel.view.Sound) : Fine (panel, .changed) := ⟨hview, by simp [CodesOutcome.printed]⟩

theorem openSelected_fine (hview : panel.view.Sound) : Fine panel.openSelected := by
  unfold openSelected
  split
  · split
    · exact ⟨trivial, by simp [CodesOutcome.printed]⟩
    · exact fine_changed hview
  · split
    · next e he => exact chooseEntry_fine (mem_entries_of_selectedEntry he) hview
    · exact fine_changed hview
  · next from_ base stickyOk hcombine =>
    rw [hcombine] at hview
    obtain ⟨hbase, hsome⟩ := hview
    split
    · next hnone => exact fine_changed (by rw [hcombine]; exact ⟨hbase, hsome⟩)
    · next v hv =>
      have hmem := mem_entries_of_selectedEntry hv
      split_ifs with hasks
      · have hplain := plain_append hbase (entries_plain .values v hmem).1
        exact ⟨trivial, readsBack_printOne hplain (by simp [hsome])⟩
      · have hkind := (values_asks v hmem).resolve_left hasks
        refine ⟨openAsk_sound hbase ?_ ?_ (by simp), by simp [CodesOutcome.printed]⟩
        · rcases hkind with hkind | hkind <;> simp [hkind]
        · rcases hkind with hkind | hkind <;> simp [hkind]
  · exact fine_changed hview

theorem combine_fine (hview : panel.view.Sound) : Fine panel.combine := by
  unfold combine
  split
  · next from_ hentries =>
    split
    · next e he =>
      split_ifs with hdone
      · exact ⟨⟨(entries_plain from_ e (mem_entries_of_selectedEntry he)).1, hdone.2⟩,
          by simp [CodesOutcome.printed]⟩
      · exact ⟨hview, by simp [refuse, CodesOutcome.printed]⟩
    · exact fine_changed hview
  · exact fine_changed hview

theorem printAll_fine (hview : panel.view.Sound) : Fine panel.printAll := by
  unfold printAll
  split
  · next from_ hentries =>
    split_ifs
    · exact ⟨hview, by simp [refuse, CodesOutcome.printed]⟩
    · refine ⟨hview, fun commands hcommands ↦ ?_⟩
      obtain ⟨e, he, rfl⟩ := List.mem_map.mp hcommands
      obtain ⟨hmem, hasks⟩ := List.mem_filter.mp he
      obtain ⟨hplain, hsome⟩ := entries_plain from_ e hmem
      exact readsBack_of_plain (plain_append hplain (modifiers_plain e.sticky))
        (by simp [hsome (by simpa using hasks)])
  · exact fine_changed hview

theorem back_fine (hview : panel.view.Sound) : Fine panel.back := by
  unfold back
  split
  · exact ⟨hview, by simp [CodesOutcome.printed]⟩
  all_goals exact ⟨trivial, by simp [CodesOutcome.printed]⟩

theorem inAsk_sound {f : Ask → Ask} (hf : ∀ ask, ask.Sound → (f ask).Sound) (hview : panel.view.Sound) :
    (panel.inAsk f).view.Sound := by
  unfold inAsk
  split
  · next from_ ask hask =>
    rw [hask] at hview
    exact hf ask hview
  · exact hview

theorem outsideAsk_sound {f : CodesPanel → CodesPanel} (hf : ∀ p : CodesPanel, (f p).view = p.view)
    (hview : panel.view.Sound) : (panel.outsideAsk f).view.Sound := by
  unfold outsideAsk
  split
  · exact hview
  · rw [hf]
    exact hview

/-! ### Answers -/

theorem append_fine {ask : Ask} {commands : List Control} {added : Control}
    (hcommands : ∀ command ∈ commands, command.Plain) (hadded : added.Plain) :
    Fine (panel.append category ask commands added) := by
  unfold append
  split
  · have hmore : ∀ command ∈ [added, .value .split], command.Plain := by
      simpa using ⟨hadded, by decide⟩
    exact ⟨openAsk_sound (plain_append hcommands hmore) (by decide) (by simp) (by simp),
      by simp [CodesOutcome.printed]⟩
  · refine ⟨trivial, readsBack_printOne (plain_append hcommands ?_) (by simp)⟩
    simpa using hadded

/-- An answer that is no text is fine. -/
theorem answer_fine {ask : Ask} (hask : ask.Sound) (hview : panel.view.Sound)
    (hkey : ask.kind = .key → trim ask.text ≠ [joinChar] ∧ trim ask.text ≠ [frameChar]) (htext : ask.kind ≠ .text) :
    Fine (panel.answer category ask) := by
  have hrefuse (message : String) : Fine (panel.refuse message) := ⟨hview, by simp [refuse, CodesOutcome.printed]⟩
  cases hkind : ask.kind with
  | nothing => exact absurd hkind hask.kind.1
  | offsetPair => exact absurd hkind hask.kind.2
  | text => exact absurd hkind htext
  | key =>
    simp only [answer, hkind]
    split
    · next c hc =>
      obtain ⟨hjoin, hframe⟩ := hkey hkind
      rw [hc] at hjoin hframe
      refine append_fine hask.base ⟨?_, by simp [Control.IsText], ?_⟩
      · exact fun heq ↦ hjoin (by rw [heq])
      · intro heq
        cases heq
        exact hframe rfl
    · exact hrefuse _
  | offset =>
    simp only [answer, hkind]
    split
    · next n hn =>
      have hbound := lt_of_parseUnsigned hn
      refine append_fine hask.base ?_
      cases ask.minus <;> exact ⟨hbound, by simp [Control.IsText], by simp⟩
    · exact hrefuse _
  | column =>
    simp only [answer, hkind]
    split
    · next hnone => exact absurd hask.sel (not_lt.mpr (List.getElem?_eq_none_iff.mp hnone))
    · next column hcolumn =>
      refine append_fine ?_ (columnOptions_plain column (List.mem_of_getElem? hcolumn))
      split_ifs
      · exact fun command h ↦ hask.base command (List.mem_of_mem_dropLast h)
      · exact hask.base
  | count =>
    obtain ⟨k, hbase, hplain⟩ := hask.count hkind
    simp only [answer, hkind, hbase]
    split
    · exact hrefuse _
    · split_ifs with hrange
      · exact append_fine (by simp) (hplain _ hrange.1 hrange.2)
      · exact hrefuse _

/-- An answer in text is read back where no box puts a command behind it. -/
theorem answer_text {ask : Ask} (hask : ask.Sound) (hview : panel.view.Sound) (hkind : ask.kind = .text)
    (ht : Framable frameChar (trim ask.text)) :
    (panel.answer category ask).1.view.Sound ∧
      ((∀ commands ∈ (panel.answer category ask).2.printed, ReadsBack commands) ↔
        (trim ask.text ≠ [] → panel.modifiers ask.stickyOk = [])) := by
  simp only [answer, hkind]
  split_ifs with hempty
  · exact ⟨hview, by simp [refuse, CodesOutcome.printed, hempty]⟩
  · have hpair : ask.thenMinus = none := by
      by_contra hsome
      exact absurd (hask.pair hsome) (by simp [hkind])
    simp only [append, hpair]
    refine ⟨trivial, ?_⟩
    have hmodifiers : ({ panel with view := .entries category } : CodesPanel).modifiers ask.stickyOk =
        panel.modifiers ask.stickyOk := rfl
    rw [readsBack_printOne_text hask.base ht, hmodifiers]
    simp [hempty]

theorem columnUp_sound {ask : Ask} (h : ask.Sound) : ({ ask with sel := ask.sel - 1 } : Ask).Sound :=
  { h with sel := (Nat.sub_le _ _).trans_lt h.sel }

theorem columnDown_sound {ask : Ask} (h : ask.Sound) :
    ({ ask with sel := min (ask.sel + 1) (columnOptions.length - 1) } : Ask).Sound := by
  have hsome : 0 < columnOptions.length := by decide
  exact { h with sel := (Nat.min_le_right _ _).trans_lt (Nat.sub_lt hsome Nat.one_pos) }

/-- An answer prints what is read back unless a box swallows its text. -/
theorem finishAsk_spec (hview : panel.view.Sound) (hallowed : AllowedAnswer panel .answer) :
    panel.finishAsk.1.view.Sound ∧
      ((∀ commands ∈ panel.finishAsk.2.printed, ReadsBack commands) ↔ ¬ Swallows panel .answer) := by
  cases hask : panel.view with
  | ask category ask =>
    have hsound : ask.Sound := by
      rw [hask] at hview
      exact hview
    obtain ⟨hkey, htext⟩ := hallowed rfl category ask hask
    have hstep : panel.finishAsk = panel.answer category ask := by simp [finishAsk, hask]
    rw [hstep]
    by_cases hkind : ask.kind = .text
    · obtain ⟨hafter, hread⟩ := answer_text hsound hview hkind (htext hkind)
      refine ⟨hafter, hread.trans ?_⟩
      rw [modifiers_eq_nil_iff]
      simp [Swallows, hask, hkind]
    · obtain ⟨hafter, hread⟩ := answer_fine hsound hview hkey hkind
      refine ⟨hafter, iff_of_true hread ?_⟩
      simp [Swallows, hask, hkind]
  | categories | entries | combine =>
    have hstep : panel.finishAsk = (panel, .changed) := by simp [finishAsk, hask]
    rw [hstep]
    refine ⟨hview, iff_of_true (by simp [CodesOutcome.printed]) ?_⟩
    simp [Swallows, hask]

/-- What one action does: the view stays sound, and what is printed is read back unless a text is swallowed. -/
theorem step_spec {action : PanelAction} (hview : panel.view.Sound) (hallowed : AllowedAnswer panel action) :
    (panel.step action).1.view.Sound ∧
      ((∀ commands ∈ (panel.step action).2.printed, ReadsBack commands) ↔ ¬ Swallows panel action) := by
  have hfine (hother : action ≠ .answer) (h : Fine (panel.step action)) :
      (panel.step action).1.view.Sound ∧
        ((∀ commands ∈ (panel.step action).2.printed, ReadsBack commands) ↔ ¬ Swallows panel action) :=
    ⟨h.view, iff_of_true h.printed fun hswallows ↦ hother hswallows.1⟩
  have hquiet {after : CodesPanel} (h : after.view.Sound) : Fine (after, .changed) :=
    ⟨h, by simp [CodesOutcome.printed]⟩
  cases action with
  | answer => exact finishAsk_spec hview hallowed
  | select row => exact hfine nofun (hquiet hview)
  | openSelected => exact hfine nofun (openSelected_fine hview)
  | combine => exact hfine nofun (combine_fine hview)
  | all => exact hfine nofun (printAll_fine hview)
  | flipSticky => exact hfine nofun (hquiet (outsideAsk_sound (fun _ ↦ rfl) hview))
  | flipSelected => exact hfine nofun (hquiet (outsideAsk_sound (fun _ ↦ rfl) hview))
  | back => exact hfine nofun (back_fine hview)
  | close => exact hfine nofun ⟨hview, by simp [step, CodesOutcome.printed]⟩
  | typeText t => exact hfine nofun (hquiet (inAsk_sound (fun ask h ↦ { h with }) hview))
  | chooseUnit unit => exact hfine nofun (hquiet (inAsk_sound (fun ask h ↦ { h with }) hview))
  | columnUp => exact hfine nofun (hquiet (inAsk_sound (fun _ ↦ columnUp_sound) hview))
  | columnDown => exact hfine nofun (hquiet (inAsk_sound (fun _ ↦ columnDown_sound) hview))

end CodesPanel

/-- From a sound view on, all that is printed is read back exactly if no text is swallowed. -/
theorem panelRun_reads_back {panel : CodesPanel} (actions : List PanelAction) (hview : panel.view.Sound)
    (hallowed : ∀ done ∈ panelRun panel actions, AllowedAnswer done.1 done.2.1) :
    (∀ done ∈ panelRun panel actions, ∀ commands ∈ done.2.2.printed, ReadsBack commands) ↔
      ∀ done ∈ panelRun panel actions, ¬ Swallows done.1 done.2.1 := by
  induction actions generalizing panel with
  | nil => simp [panelRun]
  | cons action rest ih =>
    simp only [panelRun, List.forall_mem_cons] at hallowed ⊢
    obtain ⟨hafter, hread⟩ := CodesPanel.step_spec hview hallowed.1
    exact and_congr hread (ih hafter hallowed.2)

/-- **The codes of the panel.** In every sitting at the panel with answers in its terms, every code that is printed is
read back as the commands it was put together from, exactly if no text is answered for a command with a box checked
behind it. -/
theorem panel_reads_back_iff (actions : List PanelAction)
    (hallowed : ∀ done ∈ panelRun .new actions, AllowedAnswer done.1 done.2.1) :
    (∀ done ∈ panelRun .new actions, ∀ commands ∈ done.2.2.printed, ReadsBack commands) ↔
      ∀ done ∈ panelRun .new actions, ¬ Swallows done.1 done.2.1 :=
  panelRun_reads_back actions trivial hallowed

/-- The first code of the menu is printed and read back. -/
theorem panel_reads_back_move_left :
    (panelRun .new [.openSelected, .openSelected]).map (fun done ↦ done.2.2.printed) = [[], [[.moveLeft]]] ∧
      ∀ done ∈ panelRun .new [.openSelected, .openSelected], ∀ commands ∈ done.2.2.printed, ReadsBack commands := by
  refine ⟨by decide +kernel, (panel_reads_back_iff [.openSelected, .openSelected] ?_).mpr ?_⟩
  · simp [panelRun, AllowedAnswer]
  · simp [panelRun, Swallows]

/-- What a person does for a sticky code that sets the title to a text. -/
def stickyTitle : List PanelAction :=
  [.openSelected, .flipSticky, .select (some 21), .combine, .select (some 8), .openSelected, .typeText ['x'], .answer]

/-- The sticky box is printed behind the text of a new title, which swallows it. -/
theorem panel_swallows_sticky :
    (∀ done ∈ panelRun .new stickyTitle, AllowedAnswer done.1 done.2.1) ∧
      ¬ ∀ done ∈ panelRun .new stickyTitle, ∀ commands ∈ done.2.2.printed, ReadsBack commands := by
  have hlast : (panelRun .new stickyTitle).map (fun done ↦ done.2.2.printed) =
      [[], [], [], [], [], [], [], [[.set .title, .value (.text ['x']), .sticky]]] := by
    decide +kernel
  refine ⟨by decide +kernel, fun hread ↦ ?_⟩
  · have hmem : [Control.set .title, .value (.text ['x']), .sticky] ∈
        ((panelRun .new stickyTitle).map fun done ↦ done.2.2.printed).flatten := by
      rw [hlast]
      simp
    obtain ⟨printed, hprinted, hcommands⟩ := List.mem_flatten.mp hmem
    obtain ⟨done, hdone, rfl⟩ := List.mem_map.mp hprinted
    have hread : ReadsBack ([Control.set .title] ++ .value (.text ['x']) :: [.sticky]) := hread done hdone _ hcommands
    exact not_readsBack_of_text (List.cons_ne_nil _ _) hread

end Taskologic.Client
