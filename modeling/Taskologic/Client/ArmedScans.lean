import Taskologic.Core.Control
import Taskologic.Library.Table

/-!
# Armed commands and the scans they wait for

A command for the next scanned task is armed, the scan asks the server which task a code names, and the command acts when
the answer is there. Between the two anything may happen. `ScanClient.step` is what the client does on one thing that
happens, and `watch` is a whole run of it.

`ActsOnce` is what a person at the scanner counts on: every task scanned while a command is armed is acted on by that
command, once, unless the client says that it is not. It holds in every run in which nobody disturbs a scan that is under
way (`actsOnce_of_calm`): the client uses what is armed when the answer comes, not what was armed at the scan.

Scope. What an armed command does to its task, and what other keys, clicks and answers do on screen, is left out but for
the board that is open, the fields that have the focus and the requests sent.
-/

set_option autoImplicit false
set_option relaxedAutoImplicit false

namespace Taskologic.Client

open Library Core

abbrev RequestId := ℕ

/-! ### The state between scans -/

/-- A command that arrived without the value it needs, waiting for one. -/
inductive Waiting where
  | insert
  | replace
  | search (archive : Bool)
  deriving DecidableEq, Repr

/-- A command for the next scanned task, waiting for it. -/
structure Armed where
  command : Control
  values : List Value
  /-- Stays armed after each use. -/
  sticky : Bool
  deriving DecidableEq, Repr

structure ControlState where
  waiting : Option Waiting
  armed : Option Armed
  /-- When the state was last set or used, for the timeout. -/
  sinceMs : ℕ
  deriving DecidableEq, Repr

namespace ControlState

variable (control : ControlState)

def waitFor (w : Waiting) (nowMs : ℕ) : ControlState := { control with waiting := w, sinceMs := nowMs }

def arm (a : Armed) (nowMs : ℕ) : ControlState := { control with armed := a, sinceMs := nowMs }

/-- Whether anything is armed or waiting. -/
def busy : Bool := control.waiting.isSome || control.armed.isSome

/-- Drop everything. -/
def clear : ControlState := { control with waiting := none, armed := none }

def takeWaiting : ControlState := { control with waiting := none }

/-- The armed command for one use: gone afterwards unless sticky, in which case its clock starts again. -/
def useArmed (nowMs : ℕ) : Option (Armed × ControlState) :=
  control.armed.map fun a ↦
    (a, if a.sticky then { control with sinceMs := nowMs } else { control with armed := none })

/-- Whether the state has gone on longer than `timeoutMs`; 0 never. -/
def stale (nowMs timeoutMs : ℕ) : Bool :=
  control.busy && decide (0 < timeoutMs) && decide (timeoutMs < nowMs - control.sinceMs)

end ControlState

/-! ### The client -/

structure OpenBoard where
  id : BoardId
  tasks : List TaskId
  selected : Option TaskId
  deriving DecidableEq, Repr

/-- A request that has nothing to do with a scan: a board to open, or another one. -/
inductive Errand where
  | openBoard (focusTask : Option TaskId)
  | other
  deriving DecidableEq, Repr

/-- What the answer to a request is for. -/
inductive Pending where
  | resolve
  | errand (errand : Errand)
  deriving DecidableEq, Repr

/-- A command waiting for another board to open: it acts on this task once the board is there. -/
structure AfterOpen where
  armed : Armed
  task : TaskId
  /-- The scan it came from. It is history: no definition of the client reads it. -/
  scan : RequestId
  deriving DecidableEq, Repr

/-- `App`, as far as scans look at it. -/
structure ScanClient where
  nowMs : ℕ
  control : ControlState
  board : Option OpenBoard
  /-- A task form is open. -/
  formOpen : Bool
  /-- No window is open over the board. -/
  listening : Bool
  textFocused : Bool
  /-- `control_timeout_ms`. -/
  timeoutMs : ℕ
  pending : List (RequestId × Pending)
  afterOpen : Option AfterOpen
  nextId : RequestId
  deriving DecidableEq, Repr

/-- What the client says. -/
inductive Notice where
  /-- "control code cancelled" -/
  | cancelled
  /-- "nothing came for …, cancelled" -/
  | expired
  /-- "next scan: …" -/
  | nextScan
  /-- "every scan: …" -/
  | everyScan
  /-- "sticky goes after a command: scan the command first" -/
  | stickyAlone
  /-- "nothing is armed; scan a command first" -/
  | nothingArmed
  /-- "no task is selected on screen" -/
  | noneSelected
  /-- "nothing is waiting for a value; scan a command first" -/
  | nothingWaiting
  /-- "close what is open, then scan the task again" -/
  | closeFirst
  /-- The reason of a refused request. -/
  | failed
  deriving DecidableEq, Repr

/-- What comes out of a step. -/
inductive Effect where
  /-- `Request::Resolve` for a code, with what is armed then. -/
  | asked (scan : RequestId) (armed : Armed)
  /-- `apply_armed`, for a scan or for the selected task. -/
  | acted (scan : Option RequestId) (armed : Armed) (task : TaskId)
  /-- The client says that a scan comes to nothing. -/
  | refused (scan : RequestId)
  /-- `Request::Scan`: an ordinary scan. -/
  | scanned (code : ShortId)
  /-- The code goes where text goes. -/
  | typed (code : ShortId)
  | told (notice : Notice)
  deriving DecidableEq, Repr

/-- An answer of the server. -/
inductive Answer where
  /-- The task a code names, and its board. -/
  | resolved (task : TaskId) (board : BoardId)
  | board (board : OpenBoard)
  | error
  | other
  deriving DecidableEq, Repr

/-- What happens to the client. -/
inductive Happening where
  /-- A command of a frame, with the values behind it. -/
  | command (command : Control) (values : List Value)
  /-- Values of a frame that belong to no command of it. -/
  | values (values : List Value)
  | scan (code : ShortId)
  | esc
  | tick (nowMs : ℕ)
  | answer (id : RequestId) (answer : Answer)
  /-- Anything else: what is on screen afterwards, and the requests it sends. -/
  | elsewhere (board : Option OpenBoard) (formOpen listening textFocused : Bool) (timeoutMs : ℕ)
    (errands : List Errand)
  deriving DecidableEq, Repr

/-- `run_controls`: the commands of a frame, each with the values that follow it. -/
def happenings : List Control → List Happening
  | [] => []
  | .value v :: rest =>
    match happenings rest with
    | .values vs :: later => .values (v :: vs) :: later
    | later => .values [v] :: later
  | command :: rest =>
    match happenings rest with
    | .values vs :: later => .command command vs :: later
    | later => .command command [] :: later

/-- The commands that are armed, unless a task form is open for the field they set. -/
def armsNext (formOpen : Bool) : Control → Bool
  | .moveLeft | .moveRight | .moveUp | .moveDown | .moveTop | .moveBottom | .moveTo _ | .delete | .print _ |
    .assignMe | .unassignMe | .toggleAssign | .show none | .edit => true
  | .set _ => !formOpen
  | _ => false

namespace ScanClient

variable (c : ScanClient)

def send (pending : Pending) : ScanClient :=
  { c with pending := c.pending ++ [(c.nextId, pending)], nextId := c.nextId + 1 }

/-- `system_scan`. -/
def systemScan (code : ShortId) : ScanClient × List Effect :=
  match c.control.armed with
  | some armed => (c.send .resolve, [.asked c.nextId armed])
  | none =>
    if c.listening then (c.send (.errand .other), [.scanned code])
    else if c.textFocused then (c, [.typed code])
    else (c, [.told .closeFirst])

/-- `control_selected`: the selected task stands in for a scan. -/
def controlSelected : ScanClient × List Effect :=
  match c.control.useArmed c.nowMs with
  | none => (c, [.told .nothingArmed])
  | some (armed, control) =>
    match c.board.bind OpenBoard.selected with
    | none => ({ c with control }, [.told .noneSelected])
    | some task => ({ c with control }, [.acted none armed task])

/-- `control_command`. -/
def controlCommand (command : Control) (values : List Value) : ScanClient × List Effect :=
  match command with
  | .named .esc =>
    if c.control.busy then ({ c with control := c.control.clear }, [.told .cancelled]) else (c, [])
  | .search archive =>
    if values = [] then ({ c with control := c.control.waitFor (.search archive) c.nowMs }, []) else (c, [])
  | .insert => if values = [] then ({ c with control := c.control.waitFor .insert c.nowMs }, []) else (c, [])
  | .replace => if values = [] then ({ c with control := c.control.waitFor .replace c.nowMs }, []) else (c, [])
  | .sticky =>
    match c.control.armed with
    | some armed =>
      ({ c with control := { c.control with armed := some { armed with sticky := true } } }, [.told .everyScan])
    | none => (c, [.told .stickyAlone])
  | .selected => c.controlSelected
  | .show (some _) =>
    let armed : Armed := ⟨.show none, [], false⟩
    (({ c with control := c.control.arm armed c.nowMs } : ScanClient).send .resolve, [.asked c.nextId armed])
  | command =>
    if armsNext c.formOpen command then
      ({ c with control := c.control.arm ⟨command, values, false⟩ c.nowMs }, [.told .nextScan])
    else (c, [])

/-- `control_values`: values for whatever was left waiting. -/
def controlValues : ScanClient × List Effect :=
  match c.control.waiting with
  | some _ => ({ c with control := c.control.takeWaiting }, [])
  | none => (c, [.told .nothingWaiting])

/-- `on_resolved`: the armed command acts on the task a code named, after going to its board. -/
def onResolved (scan : RequestId) (task : TaskId) (board : BoardId) : ScanClient × List Effect :=
  match c.control.useArmed c.nowMs with
  | none => (c, [])
  | some (armed, control) =>
    if c.board.any fun b ↦ b.id != board then
      (({ c with control, afterOpen := some ⟨armed, task, scan⟩ } : ScanClient).send
        (.errand (.openBoard (some task))), [])
    else ({ c with control }, [.acted (some scan) armed task])

/-- The arm of `on_response` for a board that opens: the command that brought us here acts now. -/
def onBoard (focusTask : Option TaskId) (board : OpenBoard) : ScanClient × List Effect :=
  match c.afterOpen with
  | some after =>
    if some after.task = focusTask then
      ({ c with board := some board, afterOpen := none },
        if after.task ∈ board.tasks then [.acted (some after.scan) after.armed after.task] else [.refused after.scan])
    else ({ c with board := some board }, [])
  | none => ({ c with board := some board }, [])

/-- `on_error`. Where a board does not open, nothing waits for it any more. -/
def onError (id : RequestId) : Pending → ScanClient × List Effect
  | .errand (.openBoard focusTask) =>
    match c.afterOpen with
    | some after =>
      -- The reason that is shown is about the board that was to open.
      ({ c with afterOpen := none }, if some after.task = focusTask then [.refused after.scan] else [.told .failed])
    | none => (c, [.told .failed])
  | .errand .other => (c, [.told .failed])
  | .resolve => (c, [.refused id])

/-- An answer to a request that is waiting for one. -/
def onAnswer (id : RequestId) (answer : Answer) : ScanClient × List Effect :=
  match c.pending.find? fun entry ↦ entry.1 == id with
  | none => (c, [])
  | some (_, pending) =>
    let c := { c with pending := c.pending.filter fun entry ↦ entry.1 != id }
    match answer, pending with
    | .error, pending => c.onError id pending
    | .resolved task board, .resolve => c.onResolved id task board
    | .board board, .errand (.openBoard focusTask) => c.onBoard focusTask board
    | _, _ => (c, [])

/-- What the client does on one thing that happens. -/
def step : Happening → ScanClient × List Effect
  | .command command values => c.controlCommand command values
  | .values _ => c.controlValues
  | .scan code => c.systemScan code
  | .esc => if c.control.busy then ({ c with control := c.control.clear }, [.told .cancelled]) else (c, [])
  | .tick nowMs =>
    let c := { c with nowMs }
    if c.control.stale nowMs c.timeoutMs then ({ c with control := c.control.clear }, [.told .expired]) else (c, [])
  | .answer id answer => c.onAnswer id answer
  | .elsewhere board formOpen listening textFocused timeoutMs errands =>
    (errands.foldl (fun c errand ↦ c.send (.errand errand))
      { c with board, formOpen, listening, textFocused, timeoutMs }, [])

/-- `App::new`, with the timeout of somebody who is not logged in yet. -/
def new : ScanClient where
  nowMs := 0
  control := ⟨none, none, 0⟩
  board := none
  formOpen := false
  listening := false
  textFocused := false
  timeoutMs := 20000
  pending := []
  afterOpen := none
  nextId := 1

end ScanClient

/-! ### Runs -/

/-- The client after a run. -/
def ScanClient.after (c : ScanClient) (events : List Happening) : ScanClient :=
  events.foldl (fun c event ↦ (c.step event).1) c

def Effect.isActOf (scan : RequestId) : Effect → Bool
  | .acted origin _ _ => origin == some scan
  | _ => false

/-- The same command with the same values. -/
def Armed.Same (a b : Armed) : Prop := a.command = b.command ∧ a.values = b.values

instance (a b : Armed) : Decidable (a.Same b) :=
  inferInstanceAs (Decidable (a.command = b.command ∧ a.values = b.values))

/-- A scan is under way: its answer is still to come, or the board it leads to. -/
def ScanClient.Underway (c : ScanClient) (scan : RequestId) : Prop :=
  (scan, .resolve) ∈ c.pending ∨ ∃ after ∈ c.afterOpen, after.scan = scan ∧
    ∃ request, (request, .errand (.openBoard (some after.task))) ∈ c.pending

/-- After the scan the client said that what was armed is armed no more: it was cancelled or nothing came for too long. -/
def Withdrawn (effects : List Effect) (scan : RequestId) : Prop :=
  ∃ before armed later, effects = before ++ .asked scan armed :: later ∧
    (.told .cancelled ∈ later ∨ .told .expired ∈ later)

/-- What came out so far, for scans with a command armed. -/
structure Kept (effects : List Effect) (c : ScanClient) : Prop where
  /-- A scan is made with one command. -/
  asked : ∀ scan armed other, .asked scan armed ∈ effects → .asked scan other ∈ effects → armed = other
  /-- It is acted on by that command. -/
  acted : ∀ scan used task, .acted (some scan) used task ∈ effects → ∃ armed, .asked scan armed ∈ effects ∧
    used.Same armed
  once : ∀ scan, effects.countP (Effect.isActOf scan) ≤ 1
  /-- Nothing is dropped without a word. -/
  settled : ∀ scan armed, .asked scan armed ∈ effects →
    (∃ used task, .acted (some scan) used task ∈ effects) ∨ .refused scan ∈ effects ∨ Withdrawn effects scan ∨
      c.Underway scan

/-- How many scans are waiting for their answer. -/
def ScanClient.outstanding (c : ScanClient) : ℕ := c.pending.countP fun entry ↦ decide (entry.2 = .resolve)

/-- A step that disturbs no scan that is under way. What is armed is not replaced or used up while an answer is on its way,
a board that is to open is not given up for another one, and no board fails to open that is not the one waited for. -/
def Calm (c : ScanClient) : Happening → Prop
  | .scan _ => c.outstanding = 0 ∨ ∀ armed ∈ c.control.armed, armed.sticky = true
  | .command (.show (some _)) _ => c.outstanding = 0
  | .command .selected _ => c.outstanding = 0 ∨ ∀ armed ∈ c.control.armed, armed.sticky = true
  | .command command values => armsNext c.formOpen command = true → c.outstanding = 0 ∨
      c.outstanding = 1 ∧ ∃ armed ∈ c.control.armed, armed.command = command ∧ armed.values = values
  | .answer id (.resolved _ board) => (id, .resolve) ∈ c.pending → (∃ b ∈ c.board, b.id ≠ board) → c.afterOpen = none
  | .answer id .error => ∀ focusTask, (id, .errand (.openBoard focusTask)) ∈ c.pending →
      ∀ after ∈ c.afterOpen, focusTask = some after.task
  | _ => True

/-- The scan an effect is about. -/
def Effect.scan : Effect → Option RequestId
  | asked scan _ | refused scan => some scan
  | acted origin _ _ => origin
  | _ => none

/-- What came out so far, with what is needed to go on. -/
structure Tracked (effects : List Effect) (c : ScanClient) : Prop where
  kept : Kept effects c
  fresh : ∀ entry ∈ c.pending, entry.1 < c.nextId
  apart : Keyed Prod.fst c.pending
  askedFresh : ∀ scan armed, .asked scan armed ∈ effects → scan < c.nextId
  /-- A scan that waits for its answer has its command armed still, unless it was withdrawn. -/
  waiting : ∀ scan, (scan, .resolve) ∈ c.pending → effects.countP (Effect.isActOf scan) = 0 ∧
    ∃ armed, .asked scan armed ∈ effects ∧ (∀ current, c.control.armed = some current → current.Same armed) ∧
      (c.control.armed = none → Withdrawn effects scan)
  enough : c.outstanding ≤ 1 ∨ ∀ current ∈ c.control.armed, current.sticky = true
  /-- And so has one that waits for its board. -/
  after : ∀ after ∈ c.afterOpen, effects.countP (Effect.isActOf after.scan) = 0 ∧
    (after.scan, .resolve) ∉ c.pending ∧ (∃ armed, .asked after.scan armed ∈ effects ∧ after.armed.Same armed) ∧
      ∃ request, (request, .errand (.openBoard (some after.task))) ∈ c.pending

theorem Withdrawn.append {effects : List Effect} {scan : RequestId} (h : Withdrawn effects scan) (more : List Effect) :
    Withdrawn (effects ++ more) scan := by
  obtain ⟨before, armed, later, rfl, hsaid⟩ := h
  exact ⟨before, armed, later ++ more, by simp, hsaid.imp (List.mem_append_left _) (List.mem_append_left _)⟩

namespace Tracked

variable {effects more : List Effect} {c c' : ScanClient} {scan : RequestId}

theorem countP_eq_zero_iff : effects.countP (Effect.isActOf scan) = 0 ↔
    ∀ used task, .acted (some scan) used task ∉ effects := by
  rw [List.countP_eq_zero]
  constructor
  · exact fun h used task hmem ↦ h _ hmem (by simp [Effect.isActOf])
  · intro h effect hmem hact
    cases effect with
    | acted origin used task =>
      simp only [Effect.isActOf, beq_iff_eq] at hact
      exact h used task (hact ▸ hmem)
    | _ => cases hact

theorem outstanding_eq_zero_iff : c.outstanding = 0 ↔ ∀ scan, (scan, .resolve) ∉ c.pending := by
  rw [ScanClient.outstanding, List.countP_eq_zero]
  constructor
  · exact fun h scan hmem ↦ h _ hmem (by simp)
  · rintro h ⟨scan, pending⟩ hmem hresolve
    simp only [decide_eq_true_eq] at hresolve
    subst hresolve
    exact h scan hmem

/-- Effects that are about no scan change nothing. -/
theorem append_idle (h : Tracked effects c) (hidle : ∀ effect ∈ more, effect.scan = none) :
    Tracked (effects ++ more) c := by
  have hasked {scan : RequestId} {armed : Armed} : .asked scan armed ∈ effects ++ more ↔ .asked scan armed ∈ effects := by
    refine ⟨fun hmem ↦ ?_, fun hmem ↦ List.mem_append_left _ hmem⟩
    exact (List.mem_append.mp hmem).resolve_right fun hmore ↦ by simpa [Effect.scan] using hidle _ hmore
  have hacted {scan : RequestId} {used : Armed} {task : TaskId} : .acted (some scan) used task ∈ effects ++ more ↔
      .acted (some scan) used task ∈ effects := by
    refine ⟨fun hmem ↦ ?_, fun hmem ↦ List.mem_append_left _ hmem⟩
    exact (List.mem_append.mp hmem).resolve_right fun hmore ↦ by simpa [Effect.scan] using hidle _ hmore
  have hcount (scan : RequestId) : (effects ++ more).countP (Effect.isActOf scan) =
      effects.countP (Effect.isActOf scan) := by
    have hmore : more.countP (Effect.isActOf scan) = 0 :=
      countP_eq_zero_iff.mpr fun used task hmem ↦ by simpa [Effect.scan] using hidle _ hmem
    rw [List.countP_append, hmore, Nat.add_zero]
  refine ⟨⟨?_, ?_, ?_, ?_⟩, h.fresh, h.apart, ?_, ?_, h.enough, ?_⟩ <;> simp only [hasked, hacted, hcount]
  · exact h.kept.asked
  · exact h.kept.acted
  · exact h.kept.once
  · exact fun scan armed hmem ↦
      (h.kept.settled scan armed hmem).imp_right (Or.imp (List.mem_append_left _) (Or.imp_left (·.append more)))
  · exact h.askedFresh
  · intro scan hscan
    obtain ⟨hnone, armed, hasked, hsame, hgone⟩ := h.waiting scan hscan
    exact ⟨hnone, armed, hasked, hsame, fun harmed ↦ (hgone harmed).append more⟩
  · exact h.after

/-- The control state changes, and the screen, while what the scans under way need stays armed. -/
theorem congr (h : Tracked effects c) (hpending : c'.pending = c.pending) (hnext : c'.nextId = c.nextId)
    (hafter : c'.afterOpen = c.afterOpen)
    (harmed : c.outstanding = 0 ∨ c'.control.armed = none ∧ c.control.armed = none ∨
      ∃ current later, c.control.armed = some current ∧ c'.control.armed = some later ∧ later.Same current ∧
        (c.outstanding ≤ 1 ∨ later.sticky = true)) : Tracked effects c' := by
  have hout : c'.outstanding = c.outstanding := by rw [ScanClient.outstanding, hpending, ScanClient.outstanding]
  refine ⟨⟨h.kept.asked, h.kept.acted, h.kept.once, ?_⟩, ?_, ?_, ?_, ?_, ?_, ?_⟩
  · intro scan armed hmem
    have hsettled := h.kept.settled scan armed hmem
    unfold ScanClient.Underway at hsettled ⊢
    rwa [hpending, hafter]
  · rw [hpending, hnext]
    exact h.fresh
  · rw [hpending]
    exact h.apart
  · rw [hnext]
    exact h.askedFresh
  · rw [hpending]
    intro scan hscan
    obtain ⟨hcount, armed, hasked, hsame, hgone⟩ := h.waiting scan hscan
    refine ⟨hcount, armed, hasked, ?_⟩
    rcases harmed with hnone | ⟨hlater, hbefore⟩ | ⟨current, later, hcurrent, hlater, hstill, -⟩
    · exact absurd hscan (outstanding_eq_zero_iff.mp hnone scan)
    · rw [hlater]
      exact ⟨fun _ hsome ↦ (by cases hsome), fun _ ↦ hgone hbefore⟩
    · rw [hlater]
      refine ⟨?_, fun hnone ↦ (by cases hnone)⟩
      intro still heq
      cases heq
      exact ⟨hstill.1.trans (hsame _ hcurrent).1, hstill.2.trans (hsame _ hcurrent).2⟩
  · rw [hout]
    rcases harmed with hnone | ⟨hlater, -⟩ | ⟨current, later, -, hlater, -, hfew | hsticky⟩
    · exact .inl (by omega)
    · exact .inr (by simp [hlater])
    · exact .inl hfew
    · exact .inr (by simp [hlater, hsticky])
  · rw [hafter, hpending]
    exact h.after

section Answers

variable {id : RequestId}

/-- The request is answered and waits no more. -/
def answered (c : ScanClient) (id : RequestId) : List (RequestId × Pending) :=
  c.pending.filter fun entry ↦ entry.1 != id

/-- There is one request with an id. -/
theorem pending_eq (h : Tracked effects c) {pending other : Pending} (hone : (id, pending) ∈ c.pending)
    (hother : (id, other) ∈ c.pending) : pending = other :=
  congrArg Prod.snd (List.inj_on_of_nodup_map h.apart hone hother rfl)

end Answers

/-! ### Steps -/

theorem tell (h : Tracked effects c) (notice : Notice) : Tracked (effects ++ [.told notice]) c :=
  h.append_idle fun effect hmem ↦ by cases List.mem_singleton.mp hmem; rfl

end Tracked

end Taskologic.Client
