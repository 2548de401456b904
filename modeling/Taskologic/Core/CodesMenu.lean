import Taskologic.Core.ControlRoundTrip

/-!
# The menu of codes

The entries of the Print codes menu: for each a label, the commands, what has to be asked first and whether it may be
printed sticky. All commands of the menu are `Plain`: they can be printed and are neither free text nor the dash key.

`readPayload` reads a printed payload back, from its frame to its commands. A payload leads back to its commands
(`ReadsBack`) exactly if these are well formed and hold no frame of their own (`readsBack_iff`).

Scope. The names and the descriptions of the categories are left out.
-/

set_option autoImplicit false
set_option relaxedAutoImplicit false

namespace Taskologic.Core

open Library

/-- The categories of the menu, in the order shown. -/
inductive Category where
  | nextScan
  | navigation
  | dataEntry
  | values
  | dates
  deriving DecidableEq, Repr

/-- `Category::ALL`. -/
def Category.all : List Category := [nextScan, navigation, dataEntry, values, dates]

/-- What the menu asks for before it can print an entry. -/
inductive Asks where
  | nothing
  | column
  | offset
  | key
  | text
  | count
  | offsetPair
  deriving DecidableEq, Repr

/-- One line of the menu. -/
structure Entry where
  label : Text
  commands : List Control
  asks : Asks
  sticky : Bool
  deriving DecidableEq, Repr

namespace Entry

def plain (label : Text) (commands : List Control) : Entry := ⟨label, commands, .nothing, false⟩

def armed (label : Text) (commands : List Control) : Entry := { plain label commands with sticky := true }

def asking (label : Text) (commands : List Control) (asks : Asks) : Entry := { plain label commands with asks }

end Entry

def fieldEntryLabel : Field → Text
  | .title => text "Set the title"
  | .description => text "Set the description"
  | .start => text "Set the start date"
  | .due => text "Set the due date"
  | .remindStart => text "Set the reminder before start"
  | .remindDue => text "Set the reminder before due"
  | .assign => text "Set the assignee"
  | .checklist => text "Add a checklist item"
  | .checklistItem _ => text "Tick a checklist item"
  | .excludeFromStats => text "Toggle exclude from stats"
  | .startAndDue => text "Set start and due dates"

/-- `NamedKey::ALL`. -/
def NamedKey.all : List NamedKey :=
  [up, down, left, right, esc, enter, tab, backTab] ++ (List.range' 1 12).map f

def namedKeyEntryLabel : NamedKey → Text
  | .f n => 'F' :: decimal (max 1 (min n 12))
  | .up => text "Up"
  | .down => text "Down"
  | .left => text "Left"
  | .right => text "Right"
  | .esc => text "Esc (also cancels what is armed)"
  | .enter => text "Enter"
  | .tab => text "Tab"
  | .backTab => text "Shift+Tab"

/-- The entries of the dates for one field, with its labels. -/
def dateEntries (field : Field) (now today plus minus clear : Text) (pairs : List Text) : List Entry :=
  [ .armed now [.set field, .value .now],
    .armed today [.set field, .value .today],
    { Entry.armed plus [.set field] with asks := .offset },
    { Entry.armed minus [.set field] with asks := .offset } ] ++
  pairs.map (fun label ↦ { Entry.armed label [.set field] with asks := .offsetPair }) ++
  [.armed clear [.set field, .value .clear]]

/-- `control::entries`: the entries of one category. -/
def entries : Category → List Entry
  | .nextScan =>
    [ .armed (text "Move left") [.moveLeft],
      .armed (text "Move right") [.moveRight],
      .armed (text "Move up") [.moveUp],
      .armed (text "Move down") [.moveDown],
      .armed (text "Move to the top") [.moveTop],
      .armed (text "Move to the bottom") [.moveBottom],
      .armed (text "Move to todo") [.moveTo (some .todo)],
      .armed (text "Move to paused") [.moveTo (some .paused)],
      .armed (text "Move to doing") [.moveTo (some .doing)],
      .armed (text "Move to done") [.moveTo (some .finished)],
      { Entry.armed (text "Move to a column") [.moveTo none] with asks := .column },
      .armed (text "Delete (archive)") [.delete],
      .armed (text "Print the reminder slip") [.print .reminder],
      .armed (text "Print the finish slip") [.print .finish],
      .armed (text "Print the pause card") [.print .pause],
      .armed (text "Print both slips") [.print .combo],
      .armed (text "Assign to me") [.assignMe],
      .armed (text "Unassign me") [.unassignMe],
      .armed (text "Toggle assigning to me") [.toggleAssign],
      .armed (text "Show the task") [.show none],
      .armed (text "Edit the task") [.edit] ] ++
    [ Field.title, .description, .start, .due, .startAndDue, .remindStart, .remindDue, .assign, .checklist,
      .excludeFromStats ].map (fun field ↦ Entry.armed (fieldEntryLabel field) [.set field]) ++
    [.plain (text "The selected task") [.selected]]
  | .navigation =>
    [ .plain (text "Show all boards") [.dashboard],
      .plain (text "Next board") [.nextBoard],
      .plain (text "Previous board") [.prevBoard] ] ++
    NamedKey.all.map (fun k ↦ Entry.plain (namedKeyEntryLabel k) [.named k]) ++
    [ .asking (text "Tab several times") [.named .tab] .count,
      .asking (text "Shift+Tab several times") [.named .backTab] .count,
      .asking (text "Press a key") [] .key,
      .asking (text "Search") [.search false] .text,
      .asking (text "Search, archive included") [.search true] .text,
      .plain (text "Scanner check") [.ping],
      .plain (text "Undo the last change") [.undo] ]
  | .dataEntry =>
    [ .plain (text "Insert now") [.insert, .value .now],
      .plain (text "Insert today") [.insert, .value .today],
      .plain (text "Insert this time") [.insert, .value .time],
      .plain (text "Insert my name") [.insert, .value .me],
      .asking (text "Insert text") [.insert] .text,
      .plain (text "Replace with now") [.replace, .value .now],
      .plain (text "Replace with today") [.replace, .value .today],
      .plain (text "Replace with my name") [.replace, .value .me],
      .asking (text "Replace with text") [.replace] .text ]
  | .values =>
    [ .plain (text "Now") [.value .now],
      .plain (text "Today") [.value .today],
      .plain (text "This time") [.value .time],
      .asking (text "Plus so much") [] .offset,
      .asking (text "Minus so much") [] .offset,
      .plain (text "My name") [.value .me],
      .plain (text "Clear") [.value .clear],
      .plain (text "Then the due date") [.value .split],
      .asking (text "Text") [] .text ]
  | .dates =>
    dateEntries .start (text "Set the start date to now") (text "Set the start date to today")
        (text "Set the start date, plus so much") (text "Set the start date, minus so much")
        (text "Clear the start date") [] ++
      dateEntries .due (text "Set the due date to now") (text "Set the due date to today")
        (text "Set the due date, plus so much") (text "Set the due date, minus so much")
        (text "Clear the due date") [] ++
      dateEntries .startAndDue (text "Set start and due to now") (text "Set start and due to today")
        (text "Set start and due, plus so much") (text "Set start and due, minus so much")
        (text "Clear start and due")
        [ text "Set start and due, start plus, due plus", text "Set start and due, start plus, due minus",
          text "Set start and due, start minus, due plus", text "Set start and due, start minus, due minus" ]

/-! ### Plain commands -/

/-- A command that can stand anywhere in a code. -/
def Control.Plain (command : Control) : Prop :=
  command.Printable ∧ ¬ command.IsText ∧ command ≠ .key frameChar

instance : DecidablePred Control.Plain := fun command ↦
  inferInstanceAs (Decidable (command.Printable ∧ ¬ command.IsText ∧ command ≠ .key frameChar))

/-- All commands of the menu are plain, and an entry that asks for nothing has some. -/
theorem entries_plain (category : Category) :
    ∀ entry ∈ entries category,
      (∀ command ∈ entry.commands, command.Plain) ∧ (entry.asks = .nothing → entry.commands ≠ []) := by
  cases category <;> decide +kernel

/-! ### Reading a payload back -/

/-- A printed payload is read from its frame to its commands. -/
def readPayload (payload : Text) : Option (Outcome ControlError (List Control)) :=
  match stripStart (frameText ++ [version1]) payload with
  | none => none
  | some stream =>
    match unframe frameChar false stream with
    | some (body, []) => some (parseControls body)
    | _ => none

/-- The payload of some commands leads back to them. -/
def ReadsBack (commands : List Control) : Prop := readPayload (encodeControls commands) = some (.ok commands)

theorem readsBack_iff {commands : List Control} : ReadsBack commands ↔ WellFormed commands ∧ FrameSafe commands := by
  have hstream : stripStart (frameText ++ [version1]) (encodeControls commands) =
      some (encodeBody commands ++ [frameChar, frameChar]) := rfl
  unfold ReadsBack readPayload
  rw [hstream]
  dsimp only
  constructor
  · intro hread
    split at hread
    · next body hbody =>
      obtain ⟨hsplit, hframable⟩ := unframe_eq_some_iff.mp hbody
      have hsame : encodeBody commands = body := List.append_cancel_right hsplit
      rw [← hsame] at hframable hread
      have hwell := wellFormed_of_parseControls (Option.some.inj hread)
      exact ⟨hwell, (framable_encodeBody_iff hwell).mp hframable⟩
    · cases hread
  · rintro ⟨hwell, hsafe⟩
    have hframable := (framable_encodeBody_iff hwell).mpr hsafe
    have hread : unframe frameChar false (encodeBody commands ++ [frameChar, frameChar]) =
        some (encodeBody commands, []) := unframe_eq_some_iff.mpr ⟨rfl, hframable⟩
    rw [hread]
    exact congrArg some (parseControls_encodeBody hwell)

/-- Plain commands are read back. -/
theorem readsBack_of_plain {commands : List Control} (hplain : ∀ command ∈ commands, command.Plain)
    (hsome : commands ≠ []) : ReadsBack commands := by
  refine readsBack_iff.mpr ⟨⟨hsome, fun command h ↦ (hplain command h).1, fun command h ↦ ?_⟩, ?_, fun hlast ↦ ?_⟩
  · exact (hplain command (List.mem_of_mem_dropLast h)).2.1
  · exact fun t ht ↦ absurd trivial (hplain _ ht).2.1
  · exact (hplain _ (List.mem_of_getLast? hlast)).2.2 rfl

/-- Plain commands and free text behind them are read back. -/
theorem readsBack_append_text {commands : List Control} (hplain : ∀ command ∈ commands, command.Plain) {t : Text}
    (ht : Framable frameChar t) : ReadsBack (commands ++ [.value (.text t)]) := by
  refine readsBack_iff.mpr ⟨⟨by simp, fun command h ↦ ?_, fun command h ↦ ?_⟩, fun u hu ↦ ?_, by simp⟩
  · rcases List.mem_append.mp h with h | h
    · exact (hplain command h).1
    · cases List.mem_singleton.mp h
      trivial
  · rw [List.dropLast_concat] at h
    exact (hplain command h).2.1
  · rcases List.mem_append.mp hu with hu | hu
    · exact absurd trivial (hplain _ hu).2.1
    · cases List.mem_singleton.mp hu
      exact ht

/-- Free text with commands behind it is not. -/
theorem not_readsBack_of_text {commands more : List Control} {t : Text} (hmore : more ≠ []) :
    ¬ ReadsBack (commands ++ .value (.text t) :: more) := by
  intro hread
  have hlast := (readsBack_iff.mp hread).1.textLast (.value (.text t))
  apply hlast
  · rw [List.dropLast_append_of_ne_nil (List.cons_ne_nil _ _), List.dropLast_cons_of_ne_nil hmore]
    exact List.mem_append_right _ List.mem_cons_self
  · trivial

end Taskologic.Core
