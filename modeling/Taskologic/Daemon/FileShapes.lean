import Taskologic.Core.Text
import Taskologic.Library.Json

/-!
# What the files look like

An export is a document of one of three shapes: a whole server or some of its boards (`everythingShape`), a
program (`programFileShape`), or a template with what it depends on (`templateFileShape`). The shapes list the
fields of every structure a file is made of, and say which of them hold people.

A program that knows none of the structures can still find the people: their uids are under a few keys, and
nothing else that is a number, or a list of numbers, is (`isKeyed_of_mem_fileShapes`).

Scope. An enumeration is the string that names the variant, or an object whose only field is named like it. A
shape says what may be in a place, not what has to be: numbers, texts and flags are scalars, and every field
may be missing.
-/

set_option autoImplicit false
set_option relaxedAutoImplicit false

namespace Taskologic.Daemon

open Taskologic.Core Taskologic.Library

abbrev Document := Json Text

abbrev FileShape := Shape Text

/-- Fields that hold no people. -/
def scalars (keys : List String) : List (Text × FileShape) := keys.map fun key ↦ (text key, .scalar)

/-- Fields by their names. -/
def fields (entries : List (String × FileShape)) : List (Text × FileShape) :=
  entries.map fun entry ↦ (text entry.1, entry.2)

/-! ### Parts -/

def offsetShape : FileShape := .record (scalars ["amount", "unit"])

def checklistShape : FileShape := .list (.record (scalars ["text", "done"]))

/-- `Recipients`: of its variants only `Users` has people. -/
def recipientsShape : FileShape := .record (fields [("users", .many)])

def printWhenShape : FileShape := .record (fields [("before_due", offsetShape)])

def printRulesShape : FileShape :=
  .list (.record (fields [("when", printWhenShape), ("slip", .scalar), ("to", recipientsShape)]))

/-- `Repeat`, its variants together. -/
def repeatRuleShape : FileShape :=
  .record (scalars ["kind", "every", "from", "day", "date"] ++ fields [("days", .list .scalar)])

def repeatSpecShape : FileShape :=
  .record (fields [("rule", repeatRuleShape), ("start_rule", offsetShape), ("due_rule", offsetShape)] ++
    scalars ["at", "tz"])

def questionShape : FileShape :=
  .record (scalars ["text", "default"] ++
    fields [("kind", .record (fields [("choice", .list .scalar)]))])

def triggerShape : FileShape :=
  .record (fields [("finished", .record (scalars ["step"])),
    ("answered", .record (scalars ["step", "answer"]))])

def startRuleShape : FileShape :=
  .record (fields [("after_trigger", offsetShape), ("days_later_at", .record (scalars ["days", "at"]))])

/-- `Assign`: of its variants only `Users` has people. -/
def assignShape : FileShape := .record (fields [("users", .many)])

def stepShape : FileShape :=
  .record (scalars ["key", "title", "description", "once", "auto_start", "counts_toward_root"] ++
    fields [("assign", assignShape), ("checklist", checklistShape), ("created", .list triggerShape),
      ("also_after", .list .scalar), ("start", startRuleShape), ("time_limit", offsetShape),
      ("question", questionShape), ("print", printRulesShape), ("fan_out", .list .scalar)])

def stepRefShape : FileShape :=
  .record (scalars ["run", "step", "iteration", "pending_question"] ++ fields [("question", questionShape)])

/-- What a draft and a task have in common. -/
def draftFields : List (Text × FileShape) :=
  scalars ["title", "description", "start_at", "due_at", "reminder_start_minutes", "reminder_due_minutes",
      "auto_start"] ++
    fields [("assignees", .many), ("depends_on", .list .scalar), ("checklist", checklistShape),
      ("repeat", repeatSpecShape), ("print_rules", printRulesShape)]

def taskDraftShape : FileShape := .record draftFields

def cardFieldsShape : FileShape :=
  .record (scalars ["start_date", "due_date", "assignees", "dependencies", "description", "short_id",
    "estimate"])

/-- `FieldChange`, its variants together. -/
def fieldChangeShape : FileShape := .record (scalars ["field", "from", "to"])

def scanActionShape : FileShape := .record (scalars ["choice"])

/-- `EventKind`, its variants together. The `unassigned` of a member removal are tasks. -/
def eventKindShape : FileShape :=
  .record (scalars ["kind", "column", "index", "text", "done", "from", "to", "from_task", "tasks_moved_to",
      "reason", "template", "program", "run", "answer"] ++
    fields [("changed", .list fieldChangeShape), ("open", .list .scalar), ("action", scanActionShape),
      ("uid", .one), ("unassigned", .list .scalar)])

/-! ### Rows -/

def columnShape : FileShape := .record (scalars ["id", "board_id", "name", "position", "sort_by_due"])

def boardShape : FileShape :=
  .record (scalars ["id", "short_id", "name", "description", "is_locked", "is_private", "archive_after_secs",
      "purge_deleted_after_secs", "started_col", "paused_col", "finished_col", "created_at"] ++
    fields [("owner_uid", .one), ("card_fields", cardFieldsShape), ("columns", .list columnShape),
      ("members", .many)])

def fromAverageShape : FileShape := .record (scalars ["min_samples"])

def templateOptionsShape : FileShape :=
  .record (fields [("start_prefill", offsetShape), ("due_prefill", offsetShape),
    ("due_from_average", fromAverageShape), ("dep_templates", .list .scalar)])

def templateShape : FileShape :=
  .record (scalars ["id", "short_id", "board_id", "name"] ++
    fields [("owner_uid", .one), ("draft", taskDraftShape), ("options", templateOptionsShape)])

def programDraftShape : FileShape :=
  .record (scalars ["name", "description", "min_samples"] ++ fields [("steps", .list stepShape)])

def programShape : FileShape :=
  .record (scalars ["id", "short_id", "board_id", "name", "description", "min_samples"] ++
    fields [("owner_uid", .one), ("steps", .list stepShape)])

def taskShape : FileShape :=
  .record (draftFields ++
    scalars ["id", "short_id", "board_id", "column_id", "position", "created_at", "finished_at", "version",
      "archived_at", "archived_from_col", "deleted_at", "template_id", "exclude_from_stats"] ++
    fields [("created_by", .one), ("program", stepRefShape)])

def repeatRowShape : FileShape :=
  .record (scalars ["task", "next_fire_at", "active"] ++ fields [("rule", repeatSpecShape)])

def runShape : FileShape :=
  .record (scalars ["id", "program_id", "board_id", "root_task", "column_id", "created_at", "started_at",
      "finished_at", "cancelled_at"] ++
    fields [("started_by", .one), ("steps", .list stepShape)])

def runTaskShape : FileShape :=
  .record (scalars ["task", "step", "iteration", "param", "counts", "paused_at", "skipped", "asked",
      "answer"] ++
    fields [("time_limit", offsetShape), ("question", questionShape)])

def runBundleShape : FileShape :=
  .record (scalars ["name"] ++ fields [("run", runShape), ("tasks", .list runTaskShape)])

def autoprintShape : FileShape := .record (scalars ["task", "printed_at"] ++ fields [("uid", .one)])

def sentShape : FileShape :=
  .record (scalars ["task", "kind", "anchor_at", "sent_at"] ++ fields [("uid", .one)])

def eventShape : FileShape :=
  .record (scalars ["task", "at"] ++ fields [("actor_uid", .one), ("kind", eventKindShape)])

def boardBundleShape : FileShape :=
  .record (fields [("board", boardShape), ("templates", .list templateShape), ("programs", .list programShape),
    ("tasks", .list taskShape), ("repeats", .list repeatRowShape), ("runs", .list runBundleShape),
    ("autoprinted", .list autoprintShape), ("reminders_sent", .list sentShape), ("events", .list eventShape)])

/-! ### People -/

def uiPrefsShape : FileShape :=
  .record (scalars ["show_board_tabs", "theme", "darkness", "contrast", "touchscreen", "scanner_enabled",
      "show_date", "show_time"] ++
    fields [("custom_colors", .record (scalars ["screen", "bar", "surface", "card", "text", "muted", "accent",
      "select", "button", "warn", "danger", "ok"])), ("card_fields", cardFieldsShape)])

def printPrefsShape : FileShape :=
  .record (scalars ["show_print_button", "reminder_start_minutes", "reminder_due_minutes", "mode"] ++
    fields [("autoprint_filter", .record (scalars ["assigned_to_me", "created_by_me",
      "unless_not_assigned_to_me"]))])

def scannerPrefsShape : FileShape :=
  .record (scalars ["presses_enter", "manual_only", "format", "prefix", "control_timeout_secs"])

def accountShape : FileShape :=
  .record (scalars ["is_admin", "timezone", "created_at"] ++
    fields [("prefs", .record (fields [("ui", uiPrefsShape), ("print", printPrefsShape),
      ("scanner", scannerPrefsShape)]))])

def personShape : FileShape :=
  .record (scalars ["username"] ++ fields [("uid", .one), ("account", accountShape)])

/-! ### Files -/

def headerShape : FileShape := .record (scalars ["format", "kind", "taskologic", "exported_at", "board"])

/-- What every file starts with. -/
def fileFields : List (Text × FileShape) :=
  fields [("taskologic", headerShape), ("users", .list personShape)]

def everythingShape : FileShape := .record (fileFields ++ fields [("boards", .list boardBundleShape)])

def programFileShape : FileShape :=
  .record (fileFields ++ scalars ["short_id"] ++ fields [("program", programDraftShape)])

def templateEntryShape : FileShape :=
  .record (scalars ["name", "short_id"] ++
    fields [("draft", taskDraftShape), ("start_prefill", offsetShape), ("due_prefill", offsetShape),
      ("due_from_average", fromAverageShape), ("depends_on", .list .scalar)])

def templateFileShape : FileShape :=
  .record (fileFields ++ scalars ["root"] ++ fields [("templates", .list templateEntryShape)])

def fileShapes : List FileShape := [everythingShape, programFileShape, templateFileShape]

/-! ### Where people are found -/

/-- Keys whose value is one uid, wherever they sit in a file. -/
def uidKeys : List Text :=
  [text "uid", text "owner_uid", text "created_by", text "started_by", text "actor_uid"]

/-- Keys whose value is a list of uids. The file's own `users` list is objects, not numbers, and is walked into
instead. -/
def uidListKeys : List Text := [text "assignees", text "members", text "users"]

/-- In no file is a uid under another key, or another number under one of these. -/
theorem isKeyed_of_mem_fileShapes {shape : FileShape} (hshape : shape ∈ fileShapes) :
    shape.isWalked = true ∧ shape.isKeyed uidKeys uidListKeys = true := by
  have hall : ∀ shape ∈ fileShapes, shape.isWalked = true ∧ shape.isKeyed uidKeys uidListKeys = true := by
    simp only [fileShapes, List.forall_mem_cons, List.not_mem_nil, false_implies, implies_true, and_true]
    decide +kernel
  exact hall shape hshape

end Taskologic.Daemon
