import Taskologic.Daemon.Frames
import Taskologic.Library.OwnPast

/-!
# Which sections a request runs

Logging in, reading a file, archiving what is finished and removing tasks for good are each the business of a
few threads. Every other section is routine, and requests run routine sections only (`routine_handle`), but
for the one that purges a task. So do the repetitions and the auto start of a pass of the scheduler
(`routine_fireRepeats`, `routine_autoStart`).
-/

set_option autoImplicit false
set_option relaxedAutoImplicit false

namespace Taskologic.Daemon

open Taskologic.Core Taskologic.Library

/-- The update logs nobody in, reads no file, and neither archives what is finished nor removes tasks. -/
def Update.routine {α : Type} : Update α → Bool
  | .login _ _ _ | .importEverything _ _ _ | .archive _ _ | .purge _ _ _ => false
  | _ => true

def Section.routine {α : Type} : Section α → Bool
  | .read _ => true
  | .write update => update.routine

/-- Every section of the call is routine. -/
abbrev Routine {ρ : Type} (call : Call ρ) : Prop := call.Only fun _ body ↦ body.routine = true

theorem routine_ask {α : Type} (query : Query α) : Routine (ask query) := Thread.only_call.mpr rfl

theorem routine_run {α : Type} {update : Update α} (h : update.routine = true) : Routine (run update) :=
  Thread.only_call.mpr h

theorem routine_loadBoard (actor : Actor) (id : BoardId) : Routine (loadBoard actor id) :=
  .bind (routine_ask _) fun _ ↦ .bind (Thread.only_done _) fun _ ↦ trivial

theorem routine_boardOfColumn (actor : Actor) (column : ColumnId) :
    Routine (boardOfColumn actor column) :=
  .bind (routine_ask _) fun _ ↦ routine_loadBoard actor _

theorem routine_loadTask (actor : Actor) (id : TaskId) : Routine (loadTask actor id) :=
  .bind (routine_ask _) fun _ ↦ .bind (routine_ask _) fun _ ↦ .bind (Thread.only_done _) fun _ ↦ trivial

theorem routine_loadTemplate (actor : Actor) (id : TemplateId) : Routine (loadTemplate actor id) :=
  .bind (routine_ask _) fun _ ↦ .bind (routine_ask _) fun _ ↦ .bind (Thread.only_done _) fun _ ↦ trivial

theorem routine_loadProgram (actor : Actor) (id : ProgramId) : Routine (loadProgram actor id) :=
  .bind (routine_ask _) fun _ ↦ .bind (routine_ask _) fun _ ↦ .bind (Thread.only_done _) fun _ ↦ trivial

theorem routine_loadRun (actor : Actor) (id : RunId) : Routine (loadRun actor id) :=
  .bind (routine_ask _) fun _ ↦ .bind (routine_ask _) fun _ ↦ .bind (Thread.only_done _) fun _ ↦ trivial

theorem routine_chooseColumn (board : Board) (column : Option ColumnId) :
    Routine (chooseColumn board column) := by
  cases column with
  | some column =>
    rw [chooseColumn]
    split_ifs <;> trivial
  | none => 
    rw [chooseColumn]
    cases board.firstColumn <;> trivial

theorem routine_permitUpdate (actor : Actor) (before : Board) (req : UpdateBoard) :
    Routine (permitUpdate actor before req) := by
  unfold permitUpdate
  dsimp only
  split_ifs <;> repeat' first
    | exact Thread.only_done _
    | exact trivial
    | refine .bind (Thread.only_done _) fun _ ↦ ?_

theorem routine_answerQuestion (actor : Actor) (board : Board) (task : Task) (answer : Text) :
    Routine (answerQuestion actor board task answer) := by
  unfold answerQuestion
  cases Task.question task with
  | none => trivial
  | some question =>
    dsimp only
    split_ifs
    · trivial
    · exact routine_run rfl
    · exact routine_run rfl

theorem routine_finishChild (actor : Actor) (board : Board) (child : Task) :
    Routine (finishChild actor board child) := by
  refine .bind (routine_run rfl).attempt fun moved ↦ ?_
  cases moved with
  | ok task => trivial
  | error error => cases error <;> trivial

theorem routine_scanMove (actor : Actor) (board : Board) (task : Task) (action : ScanAction)
    (answer : Option Text) : Routine (scanMove actor board task action answer) := by
  unfold scanMove
  cases scanTarget action board task with
  | error refusal => trivial
  | ok target =>
    refine .bind (routine_run rfl).attempt fun moved ↦ ?_
    cases moved with
    | ok task => exact .bind (routine_run rfl) fun _ ↦ trivial
    | error error => cases error <;> trivial

theorem routine_scanTask (actor : Actor) (board : Board) (task : Task) (action : ScanAction) :
    Routine (scanTask actor board task action) := by
  have hanswer : Routine (scanAnswer actor board task action) := by
    unfold scanAnswer
    cases Task.question task with
    | none => trivial
    | some question =>
      dsimp only
      cases question.answerFor action with
      | none => trivial
      | some answer =>
        dsimp only
        split_ifs
        · trivial
        · exact .bind (routine_answerQuestion _ _ _ _) fun _ ↦ .bind (routine_run rfl) fun _ ↦ trivial
        · exact routine_scanMove _ _ _ _ _
  cases action with
  | finishChildren =>
    unfold scanTask finishChildren
    dsimp only
    split_ifs
    · trivial
    · refine .bind (routine_ask _) fun running ↦ ?_
      split_ifs
      · trivial
      · exact .bind (.each (fun _ ↦ routine_finishChild _ _ _) _) fun _ ↦ .bind (routine_run rfl) fun _ ↦
          .bind (routine_ask _) fun _ ↦ trivial
  | startPause => exact routine_scanMove _ _ _ _ _
  | finish => exact routine_scanMove _ _ _ _ _
  | yes => exact hanswer
  | no => exact hanswer
  | choice n => exact hanswer

theorem routine_scan (actor : Actor) (payload : Text) : Routine (Daemon.scan actor payload) := by
  unfold Daemon.scan
  cases ScanPayload.parse payload with
  | error reason => trivial
  | ok parsed =>
    refine .bind (routine_ask _) fun found ↦ ?_
    cases found with
    | none => trivial
    | some task =>
      refine .bind (routine_ask _) fun board ↦ ?_
      split_ifs
      · exact routine_scanTask _ _ _ _
      · trivial

/-- A request purges a task or is routine. -/
theorem routine_handle (actor : Actor) (req : Request) (h : ∀ id, req ≠ .purgeTask id) :
    Routine (handle actor req) := by
  cases req with
  | purgeTask id => exact absurd rfl (h id)
  | scan payload => exact .bind (routine_scan _ _) fun _ ↦ trivial
  | restoreTask id =>
    refine .bind (routine_loadTask _ _) fun pair ↦ .bind (Thread.only_done _) fun _ ↦
      .bind Thread.only_check fun _ ↦ ?_
    cases restoreColumn pair.1 pair.2 with
    | none => trivial
    | some destination => exact .bind (routine_run rfl) fun _ ↦ trivial
  | _ =>
    repeat' first
      | exact routine_ask _
      | exact routine_run rfl
      | exact routine_loadBoard _ _
      | exact routine_boardOfColumn _ _
      | exact routine_loadTask _ _
      | exact routine_loadTemplate _ _
      | exact routine_loadProgram _ _
      | exact routine_loadRun _ _
      | exact routine_chooseColumn _ _
      | exact routine_permitUpdate _ _ _
      | exact routine_answerQuestion _ _ _ _
      | exact Thread.only_check
      | exact Thread.only_done _
      | refine .bind ?_ fun _ ↦ ?_

theorem routine_fireRepeat (due : Task × Option Instant) : Routine (fireRepeat due) := by
  obtain ⟨task, next⟩ := due
  refine .bind (routine_ask _) fun board ↦ ?_
  split_ifs
  · exact routine_run rfl
  · cases board.firstColumn with
    | none => trivial
    | some column => exact .bind (routine_run rfl) fun _ ↦ trivial

theorem routine_startTask (task : Task) : Routine (startTask task) :=
  .bind (routine_ask _) fun _ ↦ .bind (routine_run rfl).attempt fun _ ↦ Thread.only_pure _

theorem routine_fireRepeats : Routine fireRepeats :=
  .bind (routine_ask _) fun due ↦ .bind (.each routine_fireRepeat due) fun _ ↦ trivial

theorem routine_autoStart : Routine autoStart :=
  .bind (routine_ask _) fun due ↦ .bind (.each routine_startTask due) fun _ ↦ trivial

end Taskologic.Daemon
