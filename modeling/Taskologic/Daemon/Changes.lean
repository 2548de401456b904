import Taskologic.Daemon.Frames

/-!
# What a section may do to the store

The runs of programs, the columns of boards and tasks and the dates of tasks change in a small number of
ways. `Change` lists them, each under a label (`Effect`) and with what is known of the store when it
happens; whatever touches none of this is `Effect.aside`. A section is a chain of such changes
(`Chain`), and which ones it may be made of is said by `Update.Allows`. That every section keeps to it is
proved in `Accounts`.

What the engine does for a run it does while the run is active (`Store.Active`), to tasks the run has
made.
-/

set_option autoImplicit false
set_option relaxedAutoImplicit false

namespace Taskologic.Daemon

open Taskologic.Core Taskologic.Library

/-! ### Changes -/

/-- A kind of change, with what it is about. -/
inductive Effect where
  /-- Users, events, slips, assignees, dependencies, repetitions, templates and programs. -/
  | aside
  | addBoard
  /-- Names, members, flags and the order of columns. -/
  | editBoards
  | setRoles (board : BoardId) (roles : List (ColumnRole × ColumnId))
  | addColumn (board : BoardId)
  | cutColumn (column : ColumnId)
  | dropBoard (board : BoardId)
  | addTask
  /-- What is neither a column nor a date of a task. -/
  | editTasks
  /-- Somebody saves a task. -/
  | save (task : TaskId)
  /-- A run dates one of its tasks. -/
  | date (task : TaskId)
  /-- A request puts a task into a column. -/
  | place (task : TaskId) (column : ColumnId)
  /-- A run puts its root into a column. -/
  | close (run : RunId) (column : ColumnId)
  /-- All tasks of a column go to another. -/
  | shift (source destination : ColumnId)
  | dropTasks (gone : TaskRow → Bool)
  /-- A run begins, with its root. -/
  | addRun (run : Run)
  | importRun (run : Run)
  | startRun (run : RunId)
  | finishRun (run : RunId)
  | cancelRun (run : RunId)
  /-- Runs forget their program. -/
  | editRuns
  /-- A run makes a task its own. -/
  | addLink (link : TaskLink)
  | importLink (link : TaskLink)
  /-- A run asks the question of a task or records its answer. -/
  | settle (task : TaskId)
  /-- A pause or a skip is written down. -/
  | note (task : TaskId)
  | react (run : RunId) (event : RunEvent)

/-- The part of a store the labels are about. -/
structure Ground where
  boards : List Board
  tasks : List TaskRow
  runs : List Run
  links : List TaskLink
  reactions : List Reaction
  nextBoard : BoardId
  nextColumn : ColumnId
  nextTask : TaskId
  nextRun : RunId

def Store.ground (s : Store) : Ground where
  boards := s.boards
  tasks := s.tasks
  runs := s.runs
  links := s.links
  reactions := s.reactions
  nextBoard := s.nextBoard
  nextColumn := s.nextColumn
  nextTask := s.nextTask
  nextRun := s.nextRun

/-- The change is beside what the labels are about. -/
def Aside (s s' : Store) : Prop := s'.ground = s.ground

namespace Aside

variable {s s' : Store}

theorem boards (h : Aside s s') : s'.boards = s.boards := congrArg Ground.boards h

theorem tasks (h : Aside s s') : s'.tasks = s.tasks := congrArg Ground.tasks h

theorem runs (h : Aside s s') : s'.runs = s.runs := congrArg Ground.runs h

theorem links (h : Aside s s') : s'.links = s.links := congrArg Ground.links h

theorem reactions (h : Aside s s') : s'.reactions = s.reactions := congrArg Ground.reactions h

theorem nextBoard (h : Aside s s') : s'.nextBoard = s.nextBoard := congrArg Ground.nextBoard h

theorem nextColumn (h : Aside s s') : s'.nextColumn = s.nextColumn := congrArg Ground.nextColumn h

theorem nextTask (h : Aside s s') : s'.nextTask = s.nextTask := congrArg Ground.nextTask h

theorem nextRun (h : Aside s s') : s'.nextRun = s.nextRun := congrArg Ground.nextRun h

theorem trans {s'' : Store} (hone : Aside s s') (htwo : Aside s' s'') : Aside s s'' :=
  Eq.trans htwo hone

end Aside

/-- A run that still reacts. -/
def Store.Active (s : Store) (id : RunId) : Prop := ∃ run ∈ s.runs, run.id = id ∧ run.isActive = true

/-- A task of a run that still reacts. -/
def Store.ActiveTask (s : Store) (task : TaskId) : Prop :=
  ∃ link ∈ s.links, link.taskId = task ∧ s.Active link.run

inductive Change : Effect → Store → Store → Prop where
  | aside {s s' : Store} (h : Aside s s') : Change .aside s s'
  | addBoard {s : Store} (board : Board) (width : ℕ) (hid : board.id = s.nextBoard)
      (hcolumns : ∀ c ∈ board.columns, s.nextColumn ≤ c.id ∧ c.id < s.nextColumn + width) :
      Change .addBoard s { s with
        boards := s.boards ++ [board]
        nextBoard := s.nextBoard + 1
        nextColumn := s.nextColumn + width }
  | editBoards {s : Store} (f : Board → Board) (hid : ∀ b, (f b).id = b.id)
      (hroles : ∀ b role, (f b).columnFor role = b.columnFor role)
      (hcolumns : ∀ b column, (f b).hasColumn column = b.hasColumn column) :
      Change .editBoards s { s with boards := s.boards.map f }
  | setRoles {s : Store} (board : BoardId) (roles : List (ColumnRole × ColumnId)) :
      Change (.setRoles board roles) s (s.modifyBoard board (setRoles roles))
  | addColumn {s : Store} (board : BoardId) (f : Board → Board) (hid : ∀ b, (f b).id = b.id)
      (hroles : ∀ b role, (f b).columnFor role = b.columnFor role)
      (hcolumns : ∀ b column, (f b).hasColumn column = (b.hasColumn column || column == s.nextColumn)) :
      Change (.addColumn board) s
        { s.modifyBoard board f with nextColumn := s.nextColumn + 1 }
  | cutColumn {s : Store} (column : ColumnId) :
      Change (.cutColumn column) s { s with boards := s.boards.map fun b ↦
        { b with columns := b.columns.filter fun c ↦ c.id != column } }
  | dropBoard {s : Store} (board : BoardId) : Change (.dropBoard board) s (s.dropBoard board)
  | addTask {s : Store} (row : TaskRow) (hid : row.id = s.nextTask) :
      Change .addTask s (s.insertTask row)
  | editTasks {s : Store} (f : TaskRow → TaskRow) (hid : ∀ row, (f row).id = row.id)
      (hboard : ∀ row, (f row).boardId = row.boardId)
      (hcolumn : ∀ row, (f row).columnId = row.columnId)
      (hdates : ∀ row, (f row).startAt = row.startAt ∧ (f row).dueAt = row.dueAt) :
      Change .editTasks s { s with tasks := s.tasks.map f }
  | save {s : Store} (task : TaskId) (f : TaskRow → TaskRow) (hid : ∀ row, (f row).id = row.id)
      (hboard : ∀ row, (f row).boardId = row.boardId)
      (hcolumn : ∀ row, (f row).columnId = row.columnId) :
      Change (.save task) s (s.modifyTask task f)
  | date {s : Store} (task : TaskId) (f : TaskRow → TaskRow) (hid : ∀ row, (f row).id = row.id)
      (hboard : ∀ row, (f row).boardId = row.boardId)
      (hcolumn : ∀ row, (f row).columnId = row.columnId) (hactive : s.ActiveTask task) :
      Change (.date task) s (s.modifyTask task f)
  | place {s : Store} (task : TaskId) (column : ColumnId) (f : TaskRow → TaskRow)
      (hid : ∀ row, (f row).id = row.id) (hboard : ∀ row, (f row).boardId = row.boardId)
      (hcolumn : ∀ row, (f row).columnId = column)
      (hdates : ∀ row, (f row).startAt = row.startAt ∧ (f row).dueAt = row.dueAt) :
      Change (.place task column) s (s.modifyTask task f)
  | close {s : Store} (run : Run) (column : ColumnId) (f : TaskRow → TaskRow)
      (hid : ∀ row, (f row).id = row.id) (hboard : ∀ row, (f row).boardId = row.boardId)
      (hcolumn : ∀ row, (f row).columnId = column)
      (hdates : ∀ row, (f row).startAt = row.startAt ∧ (f row).dueAt = row.dueAt)
      (hrun : run ∈ s.runs) (hactive : run.isActive = true) :
      Change (.close run.id column) s (s.modifyTask run.rootTask f)
  | shift {s : Store} (sweep : Sweep) (source destination : ColumnId) (base : ℤ) :
      Change (.shift source destination) s (s.moveTasks sweep source destination base)
  | dropTasks {s : Store} (gone : TaskRow → Bool) : Change (.dropTasks gone) s (s.dropTasks gone)
  | addRun {s : Store} (run : Run) (link : TaskLink) (hid : run.id = s.nextRun)
      (hactive : run.isActive = true) (hstarted : run.startedAt = none)
      (hcolumn : s.hasColumn run.columnId = true)
      (hroot : ∃ row, s.taskRow run.rootTask = some row ∧ row.columnId = run.columnId)
      (hnew : s.taskLink run.rootTask = none)
      (hlink : link.taskId = run.rootTask ∧ link.run = run.id ∧ link.step = rootKey ∧
        link.asked = false ∧ link.answer = none) :
      Change (.addRun run) s
        { s with runs := s.runs ++ [run], nextRun := run.id + 1, links := s.links ++ [link] }
  | importRun {s : Store} (run : Run) (hid : run.id = s.nextRun) (reactions : List Reaction)
      (hreactions : ∀ reaction ∈ reactions, reaction.run = run.id) :
      Change (.importRun run) s { s with
        runs := s.runs ++ [run], nextRun := run.id + 1, reactions := s.reactions ++ reactions }
  | startRun {s : Store} (run : RunId) (now : Instant) :
      Change (.startRun run) s (s.modifyRun run fun r ↦ { r with startedAt := r.startedAt.or (some now) })
  | finishRun {s : Store} (run : RunId) (now : Instant) :
      Change (.finishRun run) s
        (s.modifyRun run fun r ↦ { r with finishedAt := r.finishedAt.or (some now) })
  | cancelRun {s : Store} (run : RunId) (now : Instant) :
      Change (.cancelRun run) s
        (s.modifyRun run fun r ↦ { r with cancelledAt := r.cancelledAt.or (some now) })
  | editRuns {s : Store} (f : Option ProgramId → Option ProgramId) :
      Change .editRuns s { s with runs := s.runs.map fun run ↦ { run with programId := f run.programId } }
  | addLink {s : Store} (link : TaskLink) (hnew : s.taskLink link.taskId = none)
      (hactive : s.Active link.run) (hasked : link.asked = false) (hanswer : link.answer = none) :
      Change (.addLink link) s { s with links := s.links ++ [link] }
  | importLink {s : Store} (link : TaskLink) (hnew : s.taskLink link.taskId = none)
      (hrun : link.run < s.nextRun) :
      Change (.importLink link) s { s with links := s.links ++ [link] }
  | settle {s : Store} (task : TaskId) (f : TaskLink → TaskLink)
      (hf : ∀ link, (f link).taskId = link.taskId ∧ (f link).run = link.run ∧ (f link).step = link.step)
      (hactive : s.ActiveTask task) :
      Change (.settle task) s (s.modifyLink task f)
  | note {s : Store} (task : TaskId) (f : TaskLink → TaskLink)
      (hf : ∀ link, (f link).taskId = link.taskId ∧ (f link).run = link.run ∧ (f link).step = link.step)
      (hquestion : ∀ link, (f link).asked = link.asked ∧ (f link).answer = link.answer) :
      Change (.note task) s (s.modifyLink task f)
  | react {s : Store} (run : RunId) (event : RunEvent) (hactive : s.Active run) :
      Change (.react run event) s { s with reactions := s.reactions ++ [⟨run, event⟩] }

/-- One change after another, each of an allowed kind. -/
def Chain (allowed : Effect → Prop) : Store → Store → Prop :=
  Relation.ReflTransGen fun s s' ↦ ∃ effect, allowed effect ∧ Change effect s s'

section Chain

variable {allowed other : Effect → Prop} {s s' : Store}

instance : Std.Refl (Chain allowed) := ⟨fun _ ↦ .refl⟩

instance : IsTrans Store (Chain allowed) := ⟨fun _ _ _ ↦ Relation.ReflTransGen.trans⟩

theorem Chain.trans {s'' : Store} (hone : Chain allowed s s') (htwo : Chain allowed s' s'') :
    Chain allowed s s'' :=
  Relation.ReflTransGen.trans hone htwo

theorem Chain.single {effect : Effect} (h : Change effect s s') (hallowed : allowed effect) :
    Chain allowed s s' :=
  Relation.ReflTransGen.single ⟨effect, hallowed, h⟩

theorem Chain.mono (h : Chain allowed s s') (hsub : ∀ effect, allowed effect → other effect) :
    Chain other s s' := by
  induction h with
  | refl => exact .refl
  | tail _ hstep ih =>
    obtain ⟨effect, hallowed, hchange⟩ := hstep
    exact ih.tail ⟨effect, hsub effect hallowed, hchange⟩

/-- What every allowed change keeps, a chain keeps. -/
theorem Chain.keeps {P : Store → Prop} (h : Chain allowed s s')
    (hkeep : ∀ effect s s', allowed effect → Change effect s s' → P s → P s') (hs : P s) : P s' := by
  induction h with
  | refl => exact hs
  | tail _ hstep ih =>
    obtain ⟨effect, hallowed, hchange⟩ := hstep
    exact hkeep effect _ _ hallowed hchange ih

/-- What only goes beside leaves everything else as it was. -/
theorem Chain.toAside (h : Chain (fun effect ↦ effect = .aside) s s') : Aside s s' := by
  induction h with
  | refl => rfl
  | tail _ hstep ih =>
    obtain ⟨effect, rfl, hchange⟩ := hstep
    cases hchange with
    | aside h => exact ih.trans h

end Chain

/-! ### What was there before -/

section Before

variable {effect : Effect} {s s' : Store}

/-- A run that is there after a change was there before, at no later a stage, or it is new. -/
theorem run_before (h : Change effect s s') {run : Run} (hrun : run ∈ s'.runs) :
    (∃ before ∈ s.runs, before.id = run.id ∧ before.rootTask = run.rootTask ∧ before.boardId = run.boardId ∧
      before.columnId = run.columnId ∧ (run.isActive = true → before.isActive = true)) ∨
    run.id = s.nextRun ∧ (effect = .addRun run ∨ effect = .importRun run) := by
  have hold (hmem : run ∈ s.runs) : ∃ before ∈ s.runs, before.id = run.id ∧ before.rootTask = run.rootTask ∧
      before.boardId = run.boardId ∧ before.columnId = run.columnId ∧
      (run.isActive = true → before.isActive = true) := ⟨run, hmem, rfl, rfl, rfl, rfl, fun hactive ↦ hactive⟩
  cases h with
  | aside hbeside => exact .inl (hold (hbeside.runs ▸ hrun))
  | dropTasks gone => exact .inl (hold (List.mem_of_mem_filter hrun))
  | dropBoard board =>
    obtain ⟨before, hbefore, rfl⟩ := List.mem_map.mp hrun
    exact .inl ⟨before, List.mem_of_mem_filter (List.mem_of_mem_filter hbefore), rfl, rfl, rfl, rfl,
      fun hactive ↦ hactive⟩
  | addRun new link hid | importRun new hid =>
    rcases List.mem_append.mp hrun with hmem | hlast
    · exact .inl (hold hmem)
    · obtain rfl := List.mem_singleton.mp hlast
      exact .inr ⟨hid, by simp⟩
  | startRun id now =>
    obtain ⟨before, hbefore, rfl⟩ := List.mem_map.mp hrun
    refine .inl ⟨before, hbefore, ?_⟩
    split_ifs <;> exact ⟨rfl, rfl, rfl, rfl, fun hactive ↦ hactive⟩
  | finishRun id now | cancelRun id now =>
    obtain ⟨before, hbefore, rfl⟩ := List.mem_map.mp hrun
    refine .inl ⟨before, hbefore, ?_⟩
    split_ifs
    · exact ⟨rfl, rfl, rfl, rfl, fun hactive ↦ by simp [Run.isActive] at hactive⟩
    · exact ⟨rfl, rfl, rfl, rfl, fun hactive ↦ hactive⟩
  | editRuns f =>
    obtain ⟨before, hbefore, rfl⟩ := List.mem_map.mp hrun
    exact .inl ⟨before, hbefore, rfl, rfl, rfl, rfl, fun hactive ↦ hactive⟩
  | _ => exact .inl (hold hrun)

/-- A link that is there after a change was there before, with the same question and answer unless its run is active,
or it is new. -/
theorem link_before (h : Change effect s s') {link : TaskLink} (hlink : link ∈ s'.links) :
    (∃ before ∈ s.links, before.taskId = link.taskId ∧ before.run = link.run ∧ before.step = link.step ∧
      (before.asked = link.asked ∧ before.answer = link.answer ∨ s.ActiveTask link.taskId)) ∨
    (effect = .addLink link ∧ s.Active link.run ∨ effect = .importLink link ∨
      link.run = s.nextRun ∧ ∃ run, effect = .addRun run) := by
  have hold (hmem : link ∈ s.links) : ∃ before ∈ s.links, before.taskId = link.taskId ∧ before.run = link.run ∧
      before.step = link.step ∧ (before.asked = link.asked ∧ before.answer = link.answer ∨ s.ActiveTask link.taskId) :=
    ⟨link, hmem, rfl, rfl, rfl, .inl ⟨rfl, rfl⟩⟩
  cases h with
  | aside hbeside => exact .inl (hold (hbeside.links ▸ hlink))
  | dropTasks gone => exact .inl (hold (List.mem_of_mem_filter hlink))
  | dropBoard board => exact .inl (hold (List.mem_of_mem_filter (List.mem_of_mem_filter hlink)))
  | addRun run new hid hactive hstarted hcolumn hroot hnew hown =>
    rcases List.mem_append.mp hlink with hmem | hlast
    · exact .inl (hold hmem)
    · obtain rfl := List.mem_singleton.mp hlast
      exact .inr (.inr (.inr ⟨hown.2.1.trans hid, run, rfl⟩))
  | addLink new hnew hactive =>
    rcases List.mem_append.mp hlink with hmem | hlast
    · exact .inl (hold hmem)
    · obtain rfl := List.mem_singleton.mp hlast
      exact .inr (.inl ⟨rfl, hactive⟩)
  | importLink new =>
    rcases List.mem_append.mp hlink with hmem | hlast
    · exact .inl (hold hmem)
    · obtain rfl := List.mem_singleton.mp hlast
      exact .inr (.inr (.inl rfl))
  | settle task f hf hactive =>
    obtain ⟨before, hbefore, rfl⟩ := List.mem_map.mp hlink
    refine .inl ⟨before, hbefore, ?_⟩
    split_ifs with hsame
    · refine ⟨(hf before).1.symm, (hf before).2.1.symm, (hf before).2.2.symm, .inr ?_⟩
      rwa [(hf before).1, hsame]
    · exact ⟨rfl, rfl, rfl, .inl ⟨rfl, rfl⟩⟩
  | note task f hf hquestion =>
    obtain ⟨before, hbefore, rfl⟩ := List.mem_map.mp hlink
    refine .inl ⟨before, hbefore, ?_⟩
    split_ifs
    · exact ⟨(hf before).1.symm, (hf before).2.1.symm, (hf before).2.2.symm,
        .inl ⟨(hquestion before).1.symm, (hquestion before).2.symm⟩⟩
    · exact ⟨rfl, rfl, rfl, .inl ⟨rfl, rfl⟩⟩
  | _ => exact .inl (hold hlink)

/-- Somebody changes the dates of the task. -/
def Effect.Dates (s : Store) (task : TaskId) (effect : Effect) : Prop :=
  effect = .save task ∨ effect = .date task ∧ s.ActiveTask task

/-- Somebody takes the task from a column to another. -/
def Effect.Takes (s : Store) (task : TaskId) (source destination : ColumnId) (effect : Effect) : Prop :=
  effect = .place task destination ∨ effect = .shift source destination ∨
    ∃ run ∈ s.runs, run.isActive = true ∧ run.rootTask = task ∧ effect = .close run.id destination

/-- A task that is there after a change was there before, with the same dates and in the same column unless the change
is about them, or it is new. -/
theorem task_before (h : Change effect s s') {row : TaskRow} (hrow : row ∈ s'.tasks) :
    (∃ before ∈ s.tasks, before.id = row.id ∧ before.boardId = row.boardId ∧
      (row.startAt = before.startAt ∧ row.dueAt = before.dueAt ∨ effect.Dates s row.id) ∧
      (row.columnId = before.columnId ∨ effect.Takes s row.id before.columnId row.columnId)) ∨
    row.id = s.nextTask ∧ effect = .addTask := by
  have hsame (before : TaskRow) : (before.startAt = before.startAt ∧ before.dueAt = before.dueAt ∨
      effect.Dates s before.id) ∧ (before.columnId = before.columnId ∨
      effect.Takes s before.id before.columnId before.columnId) := ⟨.inl ⟨rfl, rfl⟩, .inl rfl⟩
  have hold (hmem : row ∈ s.tasks) : ∃ before ∈ s.tasks, before.id = row.id ∧ before.boardId = row.boardId ∧
      (row.startAt = before.startAt ∧ row.dueAt = before.dueAt ∨ effect.Dates s row.id) ∧
      (row.columnId = before.columnId ∨ effect.Takes s row.id before.columnId row.columnId) :=
    ⟨row, hmem, rfl, rfl, hsame row⟩
  cases h with
  | aside hbeside => exact .inl (hold (hbeside.tasks ▸ hrow))
  | dropTasks gone | dropBoard board => exact .inl (hold (List.mem_of_mem_filter hrow))
  | addTask new hid =>
    rcases List.mem_append.mp hrow with hmem | hlast
    · exact .inl (hold hmem)
    · exact .inr ⟨List.mem_singleton.mp hlast ▸ hid, rfl⟩
  | editTasks f hid hboard hcolumn hdates =>
    obtain ⟨before, hbefore, rfl⟩ := List.mem_map.mp hrow
    exact .inl ⟨before, hbefore, (hid before).symm, (hboard before).symm, .inl (hdates before), .inl (hcolumn before)⟩
  | save task f hid hboard hcolumn =>
    obtain ⟨before, hbefore, rfl⟩ := List.mem_map.mp hrow
    refine .inl ⟨before, hbefore, ?_⟩
    split_ifs with htask
    · exact ⟨(hid before).symm, (hboard before).symm, .inr (.inl (by rw [hid, htask])), .inl (hcolumn before)⟩
    · exact ⟨rfl, rfl, hsame before⟩
  | date task f hid hboard hcolumn hactive =>
    obtain ⟨before, hbefore, rfl⟩ := List.mem_map.mp hrow
    refine .inl ⟨before, hbefore, ?_⟩
    split_ifs with htask
    · exact ⟨(hid before).symm, (hboard before).symm, .inr (.inr (by rw [hid, htask]; exact ⟨rfl, hactive⟩)),
        .inl (hcolumn before)⟩
    · exact ⟨rfl, rfl, hsame before⟩
  | place task column f hid hboard hcolumn hdates =>
    obtain ⟨before, hbefore, rfl⟩ := List.mem_map.mp hrow
    refine .inl ⟨before, hbefore, ?_⟩
    split_ifs with htask
    · exact ⟨(hid before).symm, (hboard before).symm, .inl (hdates before),
        .inr (.inl (by rw [hid, htask, hcolumn]))⟩
    · exact ⟨rfl, rfl, hsame before⟩
  | close run column f hid hboard hcolumn hdates hrun hactive =>
    obtain ⟨before, hbefore, rfl⟩ := List.mem_map.mp hrow
    refine .inl ⟨before, hbefore, ?_⟩
    split_ifs with htask
    · exact ⟨(hid before).symm, (hboard before).symm, .inl (hdates before),
        .inr (.inr (.inr ⟨run, hrun, hactive, by rw [hid, htask], by rw [hcolumn]⟩))⟩
    · exact ⟨rfl, rfl, hsame before⟩
  | shift sweep source destination base =>
    obtain ⟨before, hbefore, rfl⟩ := List.mem_map.mp hrow
    refine .inl ⟨before, hbefore, ?_⟩
    split_ifs with hin
    · exact ⟨rfl, rfl, .inl ⟨rfl, rfl⟩, .inr (.inr (.inl (by rw [hin])))⟩
    · exact ⟨rfl, rfl, hsame before⟩
  | _ => exact .inl (hold hrow)

end Before

/-! ### What is allowed -/

/-- What a run does to make what a plan says. -/
def Effect.Builds (run : RunId) : Effect → Prop
  | .aside | .addTask | .editTasks | .date _ | .settle _ => True
  | .addLink link => link.run = run
  | _ => False

/-- What a run does when a plan is carried out. -/
def Effect.Carries (run : RunId) (finishedCol : ColumnId) : Effect → Prop
  | .close r column => r = run ∧ column = finishedCol
  | .finishRun r => r = run
  | effect => effect.Builds run

/-- What a run does when it is told of an event. -/
def Effect.Reacts (run : RunId) (finishedCol : ColumnId) (event : RunEvent) : Effect → Prop
  | .react r e => r = run ∧ e = event
  | effect => effect.Carries run finishedCol

/-- What a section may be made of when it starts from a store. -/
def Update.Allows (s : Store) {α : Type} : Update α → Effect → Prop
  | .createBoard _ _, effect => match effect with
    | .aside | .addBoard => True
    | _ => False
  | .saveBoard _ before req, effect => match effect with
    | .aside | .editBoards => True
    | .setRoles board roles => board = before.id ∧ roles = req.roles
    | _ => False
  | .removeBoard _ board, effect => match effect with
    | .aside => True
    | .dropBoard b => b = board
    | _ => False
  | .appendColumn _ board _, effect => match effect with
    | .aside => True
    | .addColumn b => b = board.id
    | _ => False
  | .nameColumn _ _ _ _, effect | .reorderColumns _ _, effect | .setColumnSort _ _, effect
  | .joinBoard _ _ _, effect => match effect with
    | .aside | .editBoards => True
    | _ => False
  | .leaveBoard _ _ _ _, effect => match effect with
    | .aside | .editBoards | .editTasks => True
    | _ => False
  | .dropColumn _ board plan, effect => match effect with
    | .aside => True
    | .setRoles b roles => b = board.id ∧ roles = plan.reassignRoles
    | .cutColumn column => column = plan.removed
    | .shift source destination => source = plan.removed ∧ plan.moveTasksTo = some destination
    | _ => False
  | .setAdmin _ _, effect | .updateTimezone _ _, effect | .login _ _ _, effect
  | .noteScan _ _ _ _, effect | .makeTemplate _ _ _ _ _, effect | .saveTemplate _ _ _ _ _ _, effect
  | .dropTemplate _ _ _, effect | .makeProgram _ _ _, effect | .saveProgram _ _ _ _, effect
  | .advanceRepeat _ _, effect => match effect with
    | .aside => True
    | _ => False
  | .dropProgram _ _ _, effect => match effect with
    | .aside | .editRuns => True
    | _ => False
  | .makeTask _ _ _ _, effect | .createFromTemplate _ _ _ _ _, effect | .spawnRepeat _ _ _, effect =>
    match effect with
    | .aside | .addTask => True
    | _ => False
  | .saveTask _ _ task _, effect => match effect with
    | .aside => True
    | .save t => t = task.id
    | _ => False
  | .tickItem _ _ _ _ _, effect | .setExcludeFromStats _ _, effect | .endRepeat _ _ _, effect
  | .archive _ _, effect => match effect with
    | .aside | .editTasks => True
    | _ => False
  | .purge _ _ task, effect => match effect with
    | .aside => True
    | .dropTasks gone => ∀ row, gone row = (row.id == task)
    | _ => False
  | .bringBack _ _ task destination, effect => match effect with
    | .aside => True
    | .place t column => t = task.id ∧ column = destination
    | .note t => t = task.id
    | _ => False
  | .cancel _ _ run _, effect => match effect with
    | .aside | .editTasks => True
    | .cancelRun r => r = run.id
    | _ => False
  | .moveTaskBy _ board task destination _ _ _, effect => match effect with
    | .place t column => t = task.id ∧ column = destination
    | .note t => t = task.id
    | .startRun _ => True
    | effect => ∃ run event, effect.Reacts run board.finishedCol event
  | .giveAnswer board _ _, effect => ∃ run event, effect.Reacts run board.finishedCol event ∧
      event ≠ .rootStarted
  | .deleteTask _ board task, effect => match effect with
    | .note t => t = task.id
    | effect => ∃ run event, effect.Reacts run board.finishedCol event ∧ event ≠ .rootStarted
  | .startProgram _ board program column _ _, effect => match effect with
    | .addRun run => run.columnId = column ∧ run.boardId = program.boardId ∧ s.nextTask ≤ run.rootTask
    | effect => ∃ run, s.nextRun ≤ run ∧ effect.Reacts run board.finishedCol .created
  | .importEverything _ _ _, effect => match effect with
    | .aside | .addBoard | .addTask => True
    | .importRun _ => True
    | .importLink link => s.nextRun ≤ link.run
    | _ => False

end Taskologic.Daemon
