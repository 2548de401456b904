import Taskologic.Daemon.Export
import Taskologic.Daemon.Frames
import Taskologic.Daemon.Server
import Taskologic.Library.Renumbering

/-!
# Times after an import

An import gives everything the ids that come next (`Arrived`, `importEverything_eq_ok`). The history comes
along with the columns it names under their new ids; a column the file does not hold, because it was removed
before, keeps its old id in the history, and nothing keeps that id from being handed out again.

`timesKept_iff` says when what is measured by the history is the same before and after: when no event names a
column the file does not hold by an id that is handed out to the file's own columns.
-/

set_option autoImplicit false
set_option relaxedAutoImplicit false

namespace Taskologic.Daemon

open Taskologic.Core Taskologic.Library

/-! ### What has arrived -/

/-- The boards, the tasks and the history, with the numbers that come next. -/
def Store.placing (s : Store) :
    List Board × List TaskRow × List EventRow × BoardId × ColumnId × TaskId :=
  (s.boards, s.tasks, s.events, s.nextBoard, s.nextColumn, s.nextTask)

section Board

variable {outside : Outside} {clash : Clash} {maps maps' : Maps} {s s' : Store}

theorem hasColumn_iff {board : Board} {column : ColumnId} :
    board.hasColumn column = true ↔ ∃ c ∈ board.columns, c.id = column := by
  simp [Board.hasColumn, Board.column]

/-- A board arrives with the next number, and so do its columns. -/
theorem importBoard_eq_ok {board : Board} (h : importBoard outside board clash maps s = .ok (maps', s')) :
    ∃ home : Board, s'.placing = (s.boards ++ [home], s.tasks, s.events, s.nextBoard + 1,
        s.nextColumn + board.columns.length, s.nextTask) ∧
      home.id = s.nextBoard ∧
      (∀ column, home.hasColumn column = true ↔
        s.nextColumn ≤ column ∧ column < s.nextColumn + board.columns.length) ∧
      maps'.columns.lookup board.startedCol = some home.startedCol ∧
      maps'.columns.lookup board.finishedCol = some home.finishedCol ∧
      maps' = { maps with
        boards := (board.id, s.nextBoard) :: maps.boards
        columns := renumbering s.nextColumn (board.columns.map Column.id) ++ maps.columns } := by
  rw [renumbering_map]
  simp only [importBoard, importRole, Tx.bind_eq_ok, Tx.read_eq_ok, Tx.write_eq_ok, Tx.require_eq_ok,
    Tx.pure_eq_ok, demand_eq_ok, Prod.mk.injEq] at h
  obtain ⟨_, _, ⟨-, -, rfl⟩, _, _, ⟨rfl, rfl⟩, _, _, ⟨rfl, rfl⟩, shortId, _, hshort, _, _, ⟨_, hstarted, rfl, rfl⟩,
    _, _, ⟨_, -, rfl, rfl⟩, _, _, ⟨_, hfinished, rfl, rfl⟩, _, _, ⟨-, rfl⟩, rfl, rfl⟩ := h
  obtain rfl := reads_keptShortId _ _ _ _ _ _ _ _ _ hshort
  refine ⟨_, rfl, rfl, fun column ↦ ?_, hstarted, hfinished, rfl⟩
  rw [hasColumn_iff, ← exists_zipIdx_iff]
  simp only [sortColumns, List.mem_insertionSort, List.mem_map, Prod.exists]
  constructor
  · rintro ⟨_, ⟨c, i, hmem, rfl⟩, hid⟩
    exact ⟨c, i, hmem, hid⟩
  · rintro ⟨c, i, hmem, hid⟩
    exact ⟨_, ⟨c, i, hmem, rfl⟩, hid⟩

/-- The tasks of a board arrive in turn. -/
theorem importTasks_eq_ok {board : BoardId} {tasks : List Task} {pairs : List (TaskId × TaskId)}
    (h : Tx.each (importTask outside board maps) tasks s = .ok (pairs, s')) :
    ∃ rows : List TaskRow, s'.placing = (s.boards, s.tasks ++ rows, s.events, s.nextBoard, s.nextColumn,
        s.nextTask + tasks.length) ∧ rows.map TaskRow.id = List.range' s.nextTask tasks.length ∧
      rows.map TaskRow.boardId = List.replicate tasks.length board ∧
      pairs.reverse = renumbering s.nextTask (tasks.map fun task ↦ task.id) := by
  induction tasks generalizing s pairs with
  | nil =>
    obtain ⟨rfl, rfl⟩ := Prod.mk.inj (Tx.pure_eq_ok.mp h)
    exact ⟨[], by simp [Store.placing], rfl, rfl, rfl⟩
  | cons task tasks ih =>
    obtain ⟨pair, s₁, later, s₂, hone, htwo, hsame⟩ := Tx.each_cons_eq_ok.mp h
    obtain ⟨rfl, rfl⟩ := Prod.mk.inj hsame
    obtain ⟨row, hid, hboard, -, rfl, rfl⟩ := importTask_eq_ok hone
    have hnext : ((s.insertTask row).setAssignees s.nextTask task.assignees).nextTask = s.nextTask + 1 :=
      congrArg (· + 1) hid
    obtain ⟨rows, hplacing, hids, hboards, hpairs⟩ := ih htwo
    rw [hnext] at hplacing hids hpairs
    refine ⟨row :: rows, ?_, ?_, ?_, ?_⟩
    · rw [hplacing, List.length_cons, ← Nat.add_assoc, Nat.add_right_comm, ← List.singleton_append,
        ← List.append_assoc]
      rfl
    · rw [List.map_cons, hid, hids, List.length_cons, List.range'_succ]
    · rw [List.map_cons, hboard, hboards, List.length_cons, List.replicate_succ]
    · rw [List.reverse_cons, hpairs, List.map_cons, renumbering_cons]

/-- Templates and programs are beside what is placed. -/
theorem keeps_importTemplate {board : BoardId} (template : Template) :
    Tx.Within (Tx.Keeps Store.placing) (importTemplate outside board clash template) :=
  .bind (.read _) fun _ ↦ .bind (.read _) fun _ ↦ .bind (reads_keptShortId _ _ _ _ _ _).within fun _ ↦
    .bind (.write fun _ ↦ rfl) fun _ ↦ .pure _

theorem keeps_importProgram {board : BoardId} (program : Program) :
    Tx.Within (Tx.Keeps Store.placing) (importProgram outside board clash program) :=
  .bind (.read _) fun _ ↦ .bind (.read _) fun _ ↦ .bind (reads_keptShortId _ _ _ _ _ _).within fun _ ↦
    .bind (.write fun _ ↦ rfl) fun _ ↦ .pure _

theorem keeps_linkTemplates (templates : List Template) :
    Tx.Within (Tx.Keeps Store.placing) (linkTemplates maps templates) := by
  refine .write fun s ↦ ?_
  induction templates generalizing s with
  | nil => rfl
  | cons template rest ih =>
    rw [List.foldl_cons]
    refine IsTrans.trans _ _ _ ?_ (ih _)
    split
    · split_ifs <;> rfl
    · rfl

/-- What a board of a file has become. -/
structure Settled (s s' : Store) (maps maps' : Maps) (bundle : BoardBundle) (home : Board) (rows : List TaskRow) :
    Prop where
  placing : s'.placing = (s.boards ++ [home], s.tasks ++ rows, s.events, s.nextBoard + 1,
    s.nextColumn + bundle.board.columns.length, s.nextTask + bundle.tasks.length)
  homeId : home.id = s.nextBoard
  columns : ∀ column, home.hasColumn column = true ↔
    s.nextColumn ≤ column ∧ column < s.nextColumn + bundle.board.columns.length
  startedCol : maps'.columns.lookup bundle.board.startedCol = some home.startedCol
  finishedCol : maps'.columns.lookup bundle.board.finishedCol = some home.finishedCol
  ids : rows.map TaskRow.id = List.range' s.nextTask bundle.tasks.length
  onBoard : rows.map TaskRow.boardId = List.replicate bundle.tasks.length s.nextBoard
  boardMap : maps'.boards = (bundle.board.id, s.nextBoard) :: maps.boards
  columnMap : maps'.columns =
    renumbering s.nextColumn (bundle.board.columns.map Column.id) ++ maps.columns
  taskMap : maps'.tasks = renumbering s.nextTask (bundle.tasks.map fun task ↦ task.id) ++ maps.tasks

theorem importBoardRows_eq_ok {bundle : BoardBundle}
    (h : importBoardRows outside clash maps bundle s = .ok (maps', s')) :
    ∃ home rows, Settled s s' maps maps' bundle home rows := by
  rw [importBoardRows, Tx.bind_eq_ok] at h
  obtain ⟨board, _, hread, h⟩ := h
  obtain ⟨rfl, rfl⟩ := Prod.mk.inj (Tx.read_eq_ok.mp hread)
  obtain ⟨maps₁, s₁, hboard, h⟩ := Tx.bind_eq_ok.mp h
  obtain ⟨templates, s₂, htemplates, h⟩ := Tx.bind_eq_ok.mp h
  obtain ⟨_, s₃, hlinked, h⟩ := Tx.bind_eq_ok.mp h
  obtain ⟨programs, s₄, hprograms, h⟩ := Tx.bind_eq_ok.mp h
  obtain ⟨pairs, s₅, htasks, h⟩ := Tx.bind_eq_ok.mp h
  obtain ⟨rfl, rfl⟩ := Prod.mk.inj (Tx.pure_eq_ok.mp h)
  obtain ⟨home, hplaced, hid, hcolumns, hstarted, hfinished, rfl⟩ := importBoard_eq_ok hboard
  have hbeside : s₄.placing = s₁.placing :=
    (Tx.Within.bind (.each fun template _ ↦ keeps_importTemplate template) fun _ ↦
      .bind (keeps_linkTemplates _) fun _ ↦ .each fun program _ ↦ keeps_importProgram program)
      _ _ _ (Tx.bind_eq_ok.mpr ⟨_, _, htemplates, Tx.bind_eq_ok.mpr ⟨_, _, hlinked, hprograms⟩⟩)
  obtain ⟨rows, hrows, hids, honBoard, hpairs⟩ := importTasks_eq_ok htasks
  rw [hplaced] at hbeside
  simp only [Store.placing, Prod.mk.injEq] at hbeside
  obtain ⟨hboards, htasks, hevents, hnextBoard, hnextColumn, hnextTask⟩ := hbeside
  rw [hboards, htasks, hevents, hnextBoard, hnextColumn, hnextTask] at hrows
  rw [hnextTask] at hids hpairs
  exact ⟨home, rows, hrows, hid, hcolumns, hstarted, hfinished, hids, honBoard, rfl, rfl, by
    simp only [hpairs]⟩

end Board

/-! ### A whole file -/

/-- The board every task of some boards is on, the boards being numbered from a number on. -/
def homeOfEach (base : BoardId) (bundles : List BoardBundle) : List BoardId :=
  (bundles.zipIdx base).flatMap fun (bundle, board) ↦ List.replicate bundle.tasks.length board

/-- The board of a file stands where the roles of the file say, as far as time is measured. -/
def SameRoles (maps : Maps) (bundle : BoardBundle) (home : Board) : Prop :=
  maps.columns.lookup bundle.board.startedCol = some home.startedCol ∧
    maps.columns.lookup bundle.board.finishedCol = some home.finishedCol

/-- Where some boards of a file have gone in a store. -/
structure Arrived (target : Store) (bundles : List BoardBundle) (maps : Maps) (s : Store) (homes : List Board)
    (rows : List TaskRow) : Prop where
  placing : s.placing = (target.boards ++ homes, target.tasks ++ rows, target.events,
    target.nextBoard + bundles.length,
    target.nextColumn + (bundles.flatMap fun bundle ↦ bundle.board.columns.map Column.id).length,
    target.nextTask + (bundles.flatMap BoardBundle.tasks).length)
  homeIds : homes.map Board.id = List.range' target.nextBoard bundles.length
  columns : ∀ column, (∃ home ∈ homes, home.hasColumn column = true) ↔
    target.nextColumn ≤ column ∧ column < s.nextColumn
  roles : List.Forall₂ (SameRoles maps) bundles homes
  ids : rows.map TaskRow.id = List.range' target.nextTask (bundles.flatMap BoardBundle.tasks).length
  onBoard : rows.map TaskRow.boardId = homeOfEach target.nextBoard bundles
  boardMap : maps.boards = renumbering target.nextBoard (bundles.map fun bundle ↦ bundle.board.id)
  columnMap : maps.columns = renumbering target.nextColumn
    (bundles.flatMap fun bundle ↦ bundle.board.columns.map Column.id)
  taskMap : maps.tasks = renumbering target.nextTask
    ((bundles.flatMap BoardBundle.tasks).map fun task ↦ task.id)



theorem homeOfEach_concat (base : BoardId) (bundles : List BoardBundle) (bundle : BoardBundle) :
    homeOfEach base (bundles ++ [bundle]) =
      homeOfEach base bundles ++ List.replicate bundle.tasks.length (base + bundles.length) := by
  simp [homeOfEach, List.zipIdx_append]

/-- One range of numbers goes on from another. -/
theorem range_append {first next count number : ℕ} (h : first ≤ next) :
    (first ≤ number ∧ number < next ∨ next ≤ number ∧ number < next + count) ↔
      first ≤ number ∧ number < next + count := by omega

section Arriving

variable {target s s' : Store} {bundles : List BoardBundle} {bundle : BoardBundle} {maps maps' : Maps}
  {homes : List Board} {home : Board} {rows new : List TaskRow}

theorem Arrived.start (h : s.placing = target.placing) : Arrived target [] .default s [] [] where
  placing := by simpa [Store.placing] using h
  homeIds := rfl
  columns column := by
    have hnext : s.nextColumn = target.nextColumn := by
      simp only [Store.placing, Prod.mk.injEq] at h
      exact h.2.2.2.2.1
    simp [hnext]
  roles := .nil
  ids := rfl
  onBoard := rfl
  boardMap := rfl
  columnMap := rfl
  taskMap := rfl

/-- Columns of an earlier board are found as before when those of a later one are others. -/
theorem SameRoles.later (h : SameRoles maps bundle home)
    (hmaps : ∀ column new, maps.columns.lookup column = some new → maps'.columns.lookup column = some new) :
    SameRoles maps' bundle home :=
  ⟨hmaps _ _ h.1, hmaps _ _ h.2⟩

/-- The next board arrives behind the others. -/
theorem Arrived.concat (h : Arrived target bundles maps s homes rows)
    (hnew : Settled s s' maps maps' bundle home new)
    (hcolumns : ((bundles ++ [bundle]).flatMap fun bundle ↦ bundle.board.columns.map Column.id).Nodup) :
    Arrived target (bundles ++ [bundle]) maps' s' (homes ++ [home]) (rows ++ new) := by
  have hplacing := h.placing
  simp only [Store.placing, Prod.mk.injEq] at hplacing
  obtain ⟨hboards, htasks, hevents, hnextBoard, hnextColumn, hnextTask⟩ := hplacing
  rw [List.flatMap_append, List.flatMap_singleton] at hcolumns
  have hkept (column found : ColumnId) (hfound : maps.columns.lookup column = some found) :
      maps'.columns.lookup column = some found := by
    have hold := List.fst_mem_of_mem_zipIdx (List.mem_reverse.mp (h.columnMap ▸ mem_of_lookup hfound))
    have habsent := List.disjoint_of_nodup_append hcolumns hold
    rw [hnew.columnMap, List.lookup_append, lookup_renumbering_eq_none.mpr habsent, Option.none_or, hfound]
  have hplaced := hnew.placing
  rw [hboards, htasks, hevents, hnextBoard, hnextColumn, hnextTask] at hplaced
  have hnext : s'.nextColumn = s.nextColumn + bundle.board.columns.length := by
    simp only [Store.placing, Prod.mk.injEq] at hplaced
    rw [hplaced.2.2.2.2.1, hnextColumn]
  refine ⟨?_, ?_, fun column ↦ ?_, ?_, ?_, ?_, ?_, ?_, ?_⟩
  · simp [hplaced, List.flatMap_append, Nat.add_assoc]
  · rw [List.map_append, h.homeIds, List.map_singleton, hnew.homeId, hnextBoard, List.length_append,
      List.length_singleton, List.range'_concat, Nat.one_mul]
  · simp only [List.mem_append, List.mem_singleton, or_and_right, exists_or, exists_eq_left, h.columns column,
      hnew.columns column, hnext]
    exact range_append (hnextColumn ▸ Nat.le_add_right ..)
  · exact List.rel_append (h.roles.imp fun _ _ hroles ↦ hroles.later hkept)
      (.cons ⟨hnew.startedCol, hnew.finishedCol⟩ .nil)
  · rw [List.map_append, h.ids, hnew.ids, hnextTask, List.flatMap_append, List.flatMap_singleton,
      List.length_append, List.range'_append_1]
  · rw [List.map_append, h.onBoard, hnew.onBoard, hnextBoard, homeOfEach_concat]
  · rw [hnew.boardMap, h.boardMap, hnextBoard, List.map_append, renumbering_append, List.length_map]
    rfl
  · rw [hnew.columnMap, h.columnMap, hnextColumn, List.flatMap_append, List.flatMap_singleton,
      renumbering_append]
  · rw [hnew.taskMap, h.taskMap, hnextTask, List.flatMap_append, List.flatMap_singleton, List.map_append,
      renumbering_append, List.length_map]

/-- All boards of a file arrive in turn. -/
theorem arrived_eachWith {outside : Outside} {clash : Clash} {later : List BoardBundle}
    (h : Arrived target bundles maps s homes rows)
    (hcolumns : ((bundles ++ later).flatMap fun bundle ↦ bundle.board.columns.map Column.id).Nodup)
    (hrun : eachWith (importBoardRows outside clash) maps later s = .ok (maps', s')) :
    ∃ homes rows, Arrived target (bundles ++ later) maps' s' homes rows := by
  induction later generalizing bundles maps s homes rows with
  | nil =>
    obtain ⟨rfl, rfl⟩ := Prod.mk.inj (Tx.pure_eq_ok.mp hrun)
    exact ⟨homes, rows, by rwa [List.append_nil]⟩
  | cons bundle later ih =>
    obtain ⟨maps₁, s₁, hone, hrest⟩ := Tx.bind_eq_ok.mp hrun
    obtain ⟨home, new, hnew⟩ := importBoardRows_eq_ok hone
    rw [List.append_cons] at hcolumns ⊢
    refine ih (h.concat hnew ?_) hcolumns hrest
    rw [List.flatMap_append] at hcolumns
    exact hcolumns.of_append_left

end Arriving

/-! ### The rest of the import -/

section Rest

variable {s s' : Store} {maps maps' : Maps}

theorem keeps_importPeople (people : List User) (wholeServer : Bool) :
    Tx.Within (Tx.Keeps Store.placing) (importPeople people wholeServer) := by
  refine .write fun s ↦ ?_
  split_ifs with hfirst
  · rfl
  · clear hfirst
    induction people generalizing s with
    | nil => rfl
    | cons person rest ih =>
      rw [List.foldl_cons]
      refine IsTrans.trans _ _ _ ?_ (ih _)
      split_ifs <;> rfl

/-- Where a file's boards, columns and tasks have gone does not change any more. -/
def Maps.placed (maps : Maps) : List (BoardId × BoardId) × List (ColumnId × ColumnId) × List (TaskId × TaskId) :=
  (maps.boards, maps.columns, maps.tasks)

theorem keeps_importDeps (task : Task) : Tx.Within (Tx.Keeps Store.placing) (importDeps maps task) := by
  refine .write fun s ↦ ?_
  split
  · induction task.dependsOn generalizing s with
    | nil => rfl
    | cons dep rest ih =>
      rw [List.foldl_cons]
      refine IsTrans.trans _ _ _ ?_ (ih _)
      split <;> rfl
  · rfl

theorem keeps_importRun (board : BoardId) (startedCol : ColumnId) (bundle : RunBundle) :
    Tx.Within (Tx.Keeps Store.placing) (importRun maps board startedCol bundle) := by
  unfold importRun
  split
  · exact .pure _
  · refine .bind (.read _) fun id ↦ .bind (.write fun _ ↦ rfl) fun _ ↦
      .bind (.each fun link _ ↦ .write fun s ↦ ?_) fun _ ↦ .pure _
    split
    · split_ifs <;> rfl
    · rfl

theorem importLinks_eq_ok {bundle : BoardBundle} (h : importLinks maps bundle s = .ok (maps', s')) :
    s'.placing = s.placing ∧ maps'.placed = maps.placed := by
  constructor
  · have hkeeps : Tx.Within (Tx.Keeps Store.placing) (importLinks maps bundle) := by
      refine .bind (.require _ _) fun board ↦ .bind (.each fun task _ ↦ keeps_importDeps task) fun _ ↦
        .bind (.each fun row _ ↦ .write fun s ↦ ?_) fun _ ↦ .bind (reads_requireBoard _).within fun _ ↦
          .bind (.each fun run _ ↦ keeps_importRun _ _ run) fun _ ↦
            .bind (.each fun slip _ ↦ .write fun s ↦ ?_) fun _ ↦ .pure _
      · split <;> rfl
      · split <;> rfl
    exact hkeeps _ _ _ h
  · simp only [importLinks, Tx.bind_eq_ok, Tx.pure_eq_ok, Prod.mk.injEq] at h
    obtain ⟨_, _, -, _, _, -, _, _, -, _, _, -, _, _, -, _, _, -, rfl, -⟩ := h
    rfl

theorem importLinks_each {bundles : List BoardBundle}
    (h : eachWith importLinks maps bundles s = .ok (maps', s')) :
    s'.placing = s.placing ∧ maps'.placed = maps.placed := by
  induction bundles generalizing maps s with
  | nil =>
    obtain ⟨rfl, rfl⟩ := Prod.mk.inj (Tx.pure_eq_ok.mp h)
    exact ⟨rfl, rfl⟩
  | cons bundle rest ih =>
    obtain ⟨maps₁, s₁, hone, hrest⟩ := Tx.bind_eq_ok.mp h
    obtain ⟨hplacing, hplaced⟩ := importLinks_eq_ok hone
    obtain ⟨hplacing', hplaced'⟩ := ih hrest
    exact ⟨hplacing'.trans hplacing, hplaced'.trans hplaced⟩

/-- An event as it is kept after the import. -/
def arrivedEvent (maps : Maps) (board : BoardId) (event : EventRow) : EventRow :=
  { event with
    boardId := board
    taskId := event.taskId.bind fun task ↦ maps.tasks.lookup task
    kind := remapEvent maps event.kind }

/-- The history goes behind the history that is there. -/
theorem importEvents_each {bundles : List BoardBundle} {done : List Unit}
    (h : Tx.each (importEvents maps) bundles s = .ok (done, s')) :
    s'.boards = s.boards ∧ s'.tasks = s.tasks ∧ s'.events = s.events ++ bundles.flatMap fun bundle ↦
      bundle.events.map (arrivedEvent maps ((maps.boards.lookup bundle.board.id).getD 0)) := by
  induction bundles generalizing s done with
  | nil =>
    obtain ⟨rfl, rfl⟩ := Prod.mk.inj (Tx.pure_eq_ok.mp h)
    simp
  | cons bundle rest ih =>
    obtain ⟨_, s₁, later, s₂, hone, hrest, hsame⟩ := Tx.each_cons_eq_ok.mp h
    obtain ⟨rfl, rfl⟩ := Prod.mk.inj hsame
    obtain ⟨board, _, hboard, hwrite⟩ := Tx.bind_eq_ok.mp hone
    obtain ⟨_, hlookup, hsame⟩ := Tx.require_eq_ok.mp hboard
    obtain ⟨rfl, rfl⟩ := Prod.mk.inj hsame
    obtain ⟨-, rfl⟩ := Prod.mk.inj (Tx.write_eq_ok.mp hwrite)
    obtain ⟨hboards, htasks, hevents⟩ := ih hrest
    refine ⟨hboards, htasks, ?_⟩
    rw [hevents, List.flatMap_cons, hlookup, Option.getD_some, List.append_assoc]
    rfl

end Rest

/-! ### The import as a whole -/

theorem Arrived.of_placed {target s : Store} {bundles : List BoardBundle} {maps maps' : Maps} {homes : List Board}
    {rows : List TaskRow} (h : Arrived target bundles maps s homes rows) (hsame : maps'.placed = maps.placed) :
    Arrived target bundles maps' s homes rows := by
  simp only [Maps.placed, Prod.mk.injEq] at hsame
  obtain ⟨hboards, hcolumns, htasks⟩ := hsame
  exact { h with
    roles := h.roles.imp fun _ _ hroles ↦ hroles.later fun _ _ hfound ↦ hcolumns ▸ hfound
    boardMap := hboards.trans h.boardMap
    columnMap := hcolumns.trans h.columnMap
    taskMap := htasks.trans h.taskMap }

/-- What an import adds to a store. -/
structure Import (file : ImportFile) (target s : Store) (maps : Maps) (homes : List Board)
    (rows : List TaskRow) : Prop where
  arrived : ∃ s', Arrived target file.boards maps s' homes rows
  boards : s.boards = target.boards ++ homes
  tasks : s.tasks = target.tasks ++ rows
  events : s.events = target.events ++ file.boards.flatMap fun bundle ↦
    bundle.events.map (arrivedEvent maps ((maps.boards.lookup bundle.board.id).getD 0))

theorem importEverything_eq_ok {outside : Outside} {file : ImportFile} {wholeServer : Bool} {clash : Clash}
    {target s : Store} (hcolumns : file.columnIds.Nodup)
    (h : importEverything outside file wholeServer clash target = .ok ((), s)) :
    ∃ maps homes rows, Import file target s maps homes rows := by
  obtain ⟨_, s₁, hpeople, h⟩ := Tx.bind_eq_ok.mp h
  obtain ⟨maps₁, s₂, hrows, h⟩ := Tx.bind_eq_ok.mp h
  obtain ⟨maps₂, s₃, hlinks, h⟩ := Tx.bind_eq_ok.mp h
  obtain ⟨done, s₄, hevents, h⟩ := Tx.bind_eq_ok.mp h
  obtain ⟨-, rfl⟩ := Prod.mk.inj (Tx.pure_eq_ok.mp h)
  obtain ⟨homes, rows, harrived⟩ :=
    arrived_eachWith (.start (keeps_importPeople _ _ _ _ _ hpeople)) hcolumns hrows
  obtain ⟨hplacing, hplaced⟩ := importLinks_each hlinks
  obtain ⟨hboards, htasks, hlog⟩ := importEvents_each hevents
  have hthere := hplacing.trans harrived.placing
  simp only [Store.placing, Prod.mk.injEq] at hthere
  exact ⟨maps₂, homes, rows, ⟨s₂, harrived.of_placed hplaced⟩, by rw [hboards, hthere.1],
    by rw [htasks, hthere.2.1], by rw [hlog, hthere.2.2.1]⟩

/-! ### The trail that arrives -/

/-- Every column an event names, in order. -/
def columnsNamed : EventKind → List ColumnId
  | .taskCreated column => column.toList
  | .taskMoved source destination => [source, destination]
  | .taskArchived column | .taskRestored column | .columnAdded column | .columnRenamed column => [column]
  | .columnRemoved column destination => column :: destination.toList
  | _ => []

theorem columnsNamed_remapEvent (maps : Maps) (kind : EventKind) :
    columnsNamed (remapEvent maps kind) = (columnsNamed kind).map (remapped maps.columns) := by
  cases kind with
  | taskCreated column => cases column <;> rfl
  | columnRemoved column destination => cases destination <;> rfl
  | _ => rfl

theorem movesBetweenColumns_remapEvent (maps : Maps) (kind : EventKind) :
    movesBetweenColumns (remapEvent maps kind) = movesBetweenColumns kind := by
  cases kind <;> rfl

theorem destination_remapEvent (maps : Maps) (kind : EventKind) :
    (remapEvent maps kind).columns.2 = kind.columns.2.map (remapped maps.columns) := by
  cases kind <;> rfl

theorem destination_mem_columnsNamed {kind : EventKind} {column : ColumnId} (h : column ∈ kind.columns.2) :
    column ∈ columnsNamed kind := by
  cases kind <;> simp_all [EventKind.columns, columnsNamed]

section Trail

variable {maps : Maps} {task arrived : TaskId}

theorem changesOf_append (task : TaskId) (events later : List EventRow) :
    changesOf task (events ++ later) = changesOf task events ++ changesOf task later := by
  simp [changesOf]

/-- An event is about the arrived task exactly when it was about the task. -/
theorem changesOf_arrivedEvent (hmaps : ∀ other, maps.tasks.lookup other = some arrived ↔ other = task)
    (board : BoardId) (events : List EventRow) :
    changesOf arrived (events.map (arrivedEvent maps board)) =
      (changesOf task events).map (Transition.rename (remapped maps.columns)) := by
  unfold changesOf
  rw [List.filter_map, List.map_map, List.map_map]
  have hsame : (fun event : EventRow ↦ event.taskId == some arrived && movesBetweenColumns event.kind) ∘
      arrivedEvent maps board =
        fun event ↦ event.taskId == some task && movesBetweenColumns event.kind := by
    funext event
    rw [Function.comp_apply, arrivedEvent, movesBetweenColumns_remapEvent]
    congr 1
    rw [Bool.eq_iff_iff, beq_iff_eq, beq_iff_eq]
    cases event.taskId with
    | none => simp
    | some other => simp [hmaps]
  rw [hsame]
  exact List.map_congr_left fun event _ ↦ by simp [arrivedEvent, Transition.rename, destination_remapEvent]

theorem changesOf_flatMap_arrivedEvent (hmaps : ∀ other, maps.tasks.lookup other = some arrived ↔ other = task)
    (board : BoardBundle → BoardId) (bundles : List BoardBundle) :
    changesOf arrived (bundles.flatMap fun bundle ↦ bundle.events.map (arrivedEvent maps (board bundle))) =
      (changesOf task (bundles.flatMap BoardBundle.events)).map (Transition.rename (remapped maps.columns)) := by
  induction bundles with
  | nil => rfl
  | cons bundle bundles ih =>
    rw [List.flatMap_cons, List.flatMap_cons, changesOf_append, changesOf_append, List.map_append, ih,
      changesOf_arrivedEvent hmaps]

end Trail

/-- A task of some boards is on one of them, and so is what it has become. -/
theorem getElem?_homeOfEach {bundles : List BoardBundle} {base : BoardId} {i : ℕ} {task : Task}
    (h : (bundles.flatMap BoardBundle.tasks)[i]? = some task) :
    ∃ j bundle, bundles[j]? = some bundle ∧ task ∈ bundle.tasks ∧
      (homeOfEach base bundles)[i]? = some (base + j) := by
  induction bundles generalizing base i with
  | nil => cases h
  | cons bundle bundles ih =>
    have hcons : homeOfEach base (bundle :: bundles) =
        List.replicate bundle.tasks.length base ++ homeOfEach (base + 1) bundles := by
      simp [homeOfEach, List.zipIdx_cons]
    rw [List.flatMap_cons] at h
    rw [hcons]
    by_cases hi : i < bundle.tasks.length
    · rw [List.getElem?_append_left hi] at h
      refine ⟨0, bundle, rfl, List.mem_of_getElem? h, ?_⟩
      rw [List.getElem?_append_left (by simpa using hi), List.getElem?_replicate, if_pos hi]
      rfl
    · rw [List.getElem?_append_right (not_lt.mp hi)] at h
      obtain ⟨j, other, hother, htask, hhome⟩ : ∃ j other, bundles[j]? = some other ∧ task ∈ other.tasks ∧
          (homeOfEach (base + 1) bundles)[i - bundle.tasks.length]? = some (base + 1 + j) := ih h
      refine ⟨j + 1, other, by rwa [List.getElem?_cons_succ], htask, ?_⟩
      rw [List.getElem?_append_right (by simpa using hi), List.length_replicate, hhome, Nat.add_assoc,
        Nat.add_comm 1 j]

/-! ### Times are kept -/

/-- What the database sees to where boards come from: no id is there twice, and what is told of a task is told
on its board. -/
structure Store.Orderly (s : Store) : Prop where
  boards : Keyed Board.id s.boards
  tasks : Keyed TaskRow.id s.tasks
  columns : (s.boards.flatMap fun board ↦ board.columns.map Column.id).Nodup
  history : ∀ event ∈ s.events, ∀ row ∈ s.tasks, event.taskId = some row.id → event.boardId = row.boardId

/-- What it sees to where they go: the ids it hands out next were never handed out. -/
structure Store.Ahead (s : Store) : Prop where
  boards : ∀ board ∈ s.boards, board.id < s.nextBoard
  tasks : ∀ row ∈ s.tasks, row.id < s.nextTask
  events : ∀ event ∈ s.events, ∀ task ∈ event.taskId, task < s.nextTask

section Kept

variable {source target s : Store} {file : ImportFile} {maps : Maps} {homes : List Board} {rows : List TaskRow}

/-- The times of every imported task are the times of the task it was. The tasks of a file are numbered as they
arrive. -/
def TimesKept (source target s : Store) (file : ImportFile) : Prop :=
  ∀ i task, file.tasks[i]? = some task → ∀ now,
    s.taskTimings (target.nextTask + i) now = source.taskTimings task.id now

/-- The column is on a board that has arrived. -/
def IsNewColumn (target s : Store) (column : ColumnId) : Prop :=
  ∃ home ∈ s.boards, target.nextBoard ≤ home.id ∧ home.hasColumn column = true

/-- Where an event of the file names a column the file does not hold, the event as it is kept names no column
that has arrived. -/
def NothingMistaken (target s : Store) (file : ImportFile) : Prop :=
  ∀ i event, file.events[i]? = some event → ∃ kept, s.events[target.events.length + i]? = some kept ∧
    List.Forall₂ (fun column new ↦ column ∉ file.columnIds → ¬ IsNewColumn target s new)
      (columnsNamed event.kind) (columnsNamed kept.kind)

/-- No column that an event of the file names without the file holding it has an id that the columns of the
file are given. -/
def NoneTaken (target : Store) (file : ImportFile) : Prop :=
  ∀ event ∈ file.events, ∀ column ∈ columnsNamed event.kind, column ∉ file.columnIds →
    ¬ (target.nextColumn ≤ column ∧ column < target.nextColumn + file.columnIds.length)

instance (target : Store) (file : ImportFile) : Decidable (NoneTaken target file) :=
  inferInstanceAs (Decidable (∀ event ∈ file.events, ∀ column ∈ columnsNamed event.kind,
    column ∉ file.columnIds →
      ¬ (target.nextColumn ≤ column ∧ column < target.nextColumn + file.columnIds.length)))

namespace Import

/-- The columns that have arrived are those with the numbers that came next. -/
theorem isNewColumn_iff (h : Import file target s maps homes rows) (htarget : target.Ahead) (column : ColumnId) :
    IsNewColumn target s column ↔
      target.nextColumn ≤ column ∧ column < target.nextColumn + file.columnIds.length := by
  obtain ⟨s', harrived⟩ := h.arrived
  have hnext : s'.nextColumn = target.nextColumn + file.columnIds.length := by
    have hplacing := harrived.placing
    simp only [Store.placing, Prod.mk.injEq] at hplacing
    exact hplacing.2.2.2.2.1
  have hnew : IsNewColumn target s column ↔ ∃ home ∈ homes, home.hasColumn column = true := by
    unfold IsNewColumn
    rw [h.boards]
    constructor
    · rintro ⟨home, hmem, hlate, hcolumn⟩
      rcases List.mem_append.mp hmem with hold | hnew
      · exact absurd (htarget.boards home hold) (not_lt.mpr hlate)
      · exact ⟨home, hnew, hcolumn⟩
    · rintro ⟨home, hmem, hcolumn⟩
      have hid : home.id ∈ List.range' target.nextBoard file.boards.length :=
        harrived.homeIds ▸ List.mem_map_of_mem hmem
      exact ⟨home, List.mem_append_right _ hmem, (List.mem_range'_1.mp hid).1, hcolumn⟩
  rw [hnew, harrived.columns, hnext]

/-- A column the file does not hold keeps its id. -/
theorem remapped_of_not_mem (h : Import file target s maps homes rows) {column : ColumnId}
    (hcolumn : column ∉ file.columnIds) : remapped maps.columns column = column := by
  obtain ⟨s', harrived⟩ := h.arrived
  have hnone : maps.columns.lookup column = none :=
    harrived.columnMap ▸ lookup_renumbering_eq_none.mpr hcolumn
  rw [remapped, hnone, Option.getD_none]

/-- The log holds the file's events in order. -/
theorem getElem?_events (h : Import file target s maps homes rows) {i : ℕ} {event : EventRow}
    (hevent : file.events[i]? = some event) :
    ∃ board, s.events[target.events.length + i]? = some (arrivedEvent maps board event) := by
  rw [h.events, List.getElem?_append_right (Nat.le_add_right ..), Nat.add_sub_cancel_left]
  rw [ImportFile.events] at hevent
  generalize file.boards = bundles at hevent
  induction bundles generalizing i with
  | nil => cases hevent
  | cons bundle bundles ih =>
    rw [List.flatMap_cons] at hevent ⊢
    by_cases hi : i < bundle.events.length
    · rw [List.getElem?_append_left hi] at hevent
      rw [List.getElem?_append_left (by simpa using hi), List.getElem?_map, hevent]
      exact ⟨_, rfl⟩
    · rw [List.getElem?_append_right (not_lt.mp hi)] at hevent
      rw [List.getElem?_append_right (by simpa using hi), List.length_map]
      exact ih hevent

theorem nothingMistaken_iff (h : Import file target s maps homes rows) (htarget : target.Ahead) :
    NothingMistaken target s file ↔ NoneTaken target file := by
  have hevent (board : BoardId) (event : EventRow) :
      List.Forall₂ (fun column new ↦ column ∉ file.columnIds → ¬ IsNewColumn target s new)
          (columnsNamed event.kind) (columnsNamed (arrivedEvent maps board event).kind) ↔
        ∀ column ∈ columnsNamed event.kind, column ∉ file.columnIds →
          ¬ (target.nextColumn ≤ column ∧ column < target.nextColumn + file.columnIds.length) := by
    rw [arrivedEvent, columnsNamed_remapEvent, List.forall₂_map_right_iff, List.forall₂_same]
    refine forall₂_congr fun column _ ↦ forall_congr' fun hcolumn ↦ ?_
    rw [h.remapped_of_not_mem hcolumn, h.isNewColumn_iff htarget]
  constructor
  · intro hmistaken event hmem
    obtain ⟨i, hi⟩ := List.mem_iff_getElem?.mp hmem
    obtain ⟨kept, hkept, hcolumns⟩ := hmistaken i event hi
    obtain ⟨board, hboard⟩ := h.getElem?_events hi
    obtain rfl := Option.some.inj (hkept.symm.trans hboard)
    exact (hevent board event).mp hcolumns
  · intro hnone i event hi
    obtain ⟨board, hboard⟩ := h.getElem?_events hi
    exact ⟨_, hboard, (hevent board event).mpr (hnone event (List.mem_of_getElem? hi))⟩

/-- Where no id is taken, the columns keep the roles apart. -/
theorem keepsRole (h : Import file target s maps homes rows) (hcolumns : file.columnIds.Nodup)
    (hnone : NoneTaken target file) {role new : ColumnId} (hrole : maps.columns.lookup role = some new)
    {task : TaskId} {t : Transition} (ht : t ∈ file.columnChanges task) :
    t.KeepsRole (remapped maps.columns) role new := by
  obtain ⟨s', harrived⟩ := h.arrived
  have hmaps : maps.columns = renumbering target.nextColumn file.columnIds := harrived.columnMap
  intro column hcolumn
  by_cases hheld : column ∈ file.columnIds
  · obtain ⟨i, hi⟩ := List.mem_iff_getElem?.mp hheld
    have hfound : maps.columns.lookup column = some (target.nextColumn + i) :=
      hmaps ▸ lookup_renumbering_getElem? hcolumns hi
    rw [remapped, hfound, Option.getD_some]
    constructor
    · rintro rfl
      exact lookup_renumbering_inj hcolumns (hmaps ▸ hfound) (hmaps ▸ hrole)
    · rintro rfl
      exact Option.some.inj (hfound.symm.trans hrole)
  · rw [h.remapped_of_not_mem hheld]
    rw [hmaps] at hrole
    obtain ⟨event, hevent, rfl⟩ := List.mem_map.mp ht
    have hnot := hnone event (List.mem_filter.mp hevent).1 column (destination_mem_columnsNamed hcolumn) hheld
    refine iff_of_false (fun hsame ↦ hnot (hsame ▸ mem_range_of_lookup hcolumns hrole)) fun hsame ↦ hheld ?_
    rw [hsame]
    exact List.mem_of_getElem? ((lookup_renumbering hcolumns).mp hrole).2

/-- The trail of an imported task is the trail of the file, under the new names. -/
theorem transitionsFor (h : Import file target s maps homes rows) (htarget : target.Ahead)
    (htasks : (file.tasks.map fun task ↦ task.id).Nodup) {i : ℕ} {task : Task} (hi : file.tasks[i]? = some task) :
    s.transitionsFor (target.nextTask + i) =
      ((file.columnChanges task.id).insertionSort fun a b ↦ a.recordedAt ≤ b.recordedAt).map
        (Transition.rename (remapped maps.columns)) := by
  obtain ⟨s', harrived⟩ := h.arrived
  have hmaps : maps.tasks = renumbering target.nextTask (file.tasks.map fun task ↦ task.id) := harrived.taskMap
  have hfound : maps.tasks.lookup task.id = some (target.nextTask + i) := by
    rw [hmaps]
    exact lookup_renumbering_getElem? htasks (by rw [List.getElem?_map, hi, Option.map_some])
  have hown (other : TaskId) : maps.tasks.lookup other = some (target.nextTask + i) ↔ other = task.id := by
    refine ⟨fun hother ↦ ?_, fun hother ↦ hother ▸ hfound⟩
    rw [hmaps] at hother hfound
    exact lookup_renumbering_inj htasks hother hfound
  have hold : changesOf (target.nextTask + i) target.events = [] := by
    refine List.map_eq_nil_iff.mpr (List.filter_eq_nil_iff.mpr fun event hevent hboth ↦ ?_)
    have htask : event.taskId = some (target.nextTask + i) := by
      simpa using (Bool.and_eq_true_iff.mp hboth).1
    exact absurd (htarget.events event hevent _ htask) (not_lt.mpr (Nat.le_add_right ..))
  have hchanges : s.columnChanges (target.nextTask + i) =
      (file.columnChanges task.id).map (Transition.rename (remapped maps.columns)) := by
    rw [Store.columnChanges, h.events, changesOf_append, hold, List.nil_append,
      changesOf_flatMap_arrivedEvent hown fun bundle ↦ (maps.boards.lookup bundle.board.id).getD 0]
    rfl
  rw [Store.transitionsFor, hchanges]
  exact (List.map_insertionSort (fun a b : Transition ↦ a.recordedAt ≤ b.recordedAt)
    (fun a b : Transition ↦ a.recordedAt ≤ b.recordedAt) (Transition.rename (remapped maps.columns))
    (file.columnChanges task.id) fun _ _ _ _ ↦ Iff.rfl).symm

/-- An imported task is on the board its board has become. -/
theorem taskTimings (h : Import file target s maps homes rows) (htarget : target.Ahead) {i : ℕ} {task : Task}
    (hi : file.tasks[i]? = some task) :
    ∃ bundle home, bundle ∈ file.boards ∧ task ∈ bundle.tasks ∧ SameRoles maps bundle home ∧ ∀ now,
      s.taskTimings (target.nextTask + i) now = some (timings (s.transitionsFor (target.nextTask + i))
        home.startedCol home.finishedCol now) := by
  obtain ⟨s', harrived⟩ := h.arrived
  obtain ⟨j, bundle, hj, htask, hhome⟩ : ∃ j bundle, file.boards[j]? = some bundle ∧ task ∈ bundle.tasks ∧
      (homeOfEach target.nextBoard file.boards)[i]? = some (target.nextBoard + j) := getElem?_homeOfEach hi
  rw [← harrived.onBoard, List.getElem?_map, Option.map_eq_some_iff] at hhome
  obtain ⟨row, hrow, hboard⟩ := hhome
  have hstored : s.taskRow (target.nextTask + i) = some row := by
    rw [Store.taskRow, h.tasks, find?_append_numbered htarget.tasks harrived.ids, hrow]
  obtain ⟨home, hhome, hroles⟩ : ∃ home, homes[j]? = some home ∧ SameRoles maps bundle home := by
    have hlt : j < homes.length := harrived.roles.length_eq ▸ (List.getElem?_eq_some_iff.mp hj).1
    refine ⟨homes[j], List.getElem?_eq_getElem hlt, ?_⟩
    have hpair := (List.forall₂_iff_get.mp harrived.roles).2 j (List.getElem?_eq_some_iff.mp hj).1 hlt
    simpa [(List.getElem?_eq_some_iff.mp hj).2] using hpair
  have hfound : s.board row.boardId = some home := by
    rw [hboard, Store.board, h.boards, find?_append_numbered htarget.boards harrived.homeIds, hhome]
  refine ⟨bundle, home, List.mem_of_getElem? hj, htask, hroles, fun now ↦ ?_⟩
  rw [Store.taskTimings, hstored, Option.bind_some, Store.timingsOf, hfound, Option.map_some,
    Store.id_of_taskRow hstored]

end Import

/-! ### From one server to another -/

section Exported

variable {boards : List Board} {everyone : Bool}

/-- What is exported is all there is or one board of it. -/
theorem mem_exportedBoards {name : Option Text} (h : source.exportedBoards name = .ok boards) :
    boards.Perm source.boards ∨ ∃ board ∈ source.boards, boards = [board] := by
  cases name with
  | none =>
    obtain rfl := Except.ok.inj h
    exact .inl (List.perm_insertionSort _ _)
  | some name =>
    rw [Store.exportedBoards] at h
    split_ifs at h
    · obtain rfl := Except.ok.inj h
      exact .inl (List.perm_insertionSort _ _)
    · unfold Store.boardNamed at h
      split at h
      · cases h
      · rename_i board hnamed
        obtain rfl := Except.ok.inj h
        exact .inr ⟨board, (List.mem_filter.mp (hnamed ▸ List.mem_singleton_self board)).1, rfl⟩
      · cases h

theorem columnIds_exportBoards : (source.exportBoards boards everyone).columnIds =
    boards.flatMap fun board ↦ board.columns.map Column.id := by
  simp [ImportFile.columnIds, Store.exportBoards, List.flatMap_map, Store.bundle]

/-- No task is in the file twice. -/
theorem nodup_tasks_exportBoards (hsource : source.Orderly) (hboards : (boards.map Board.id).Nodup) :
    ((source.exportBoards boards everyone).tasks.map fun task ↦ task.id).Nodup := by
  rw [tasks_exportBoards, List.map_flatMap, List.nodup_flatMap]
  constructor
  · intro board _
    have hperm := (List.perm_insertionSort (fun a b : Task ↦ a.id ≤ b.id)
      ((source.tasks.filter fun row ↦ row.boardId == board.id).map source.hydrate)).map fun task ↦ task.id
    refine hperm.nodup_iff.mpr ?_
    rw [List.map_map]
    exact hsource.tasks.sublist (List.filter_sublist.map _)
  · refine (List.pairwise_map.mp hboards).imp fun {a b} hne id ha hb ↦ hne ?_
    obtain ⟨task, htask, rfl⟩ := List.mem_map.mp ha
    obtain ⟨other, hother, hid⟩ := List.mem_map.mp hb
    obtain ⟨row, hrow, hrowBoard, rfl⟩ := mem_tasks_bundle.mp htask
    obtain ⟨row', hrow', hrowBoard', rfl⟩ := mem_tasks_bundle.mp hother
    rw [← hrowBoard, ← hrowBoard', List.inj_on_of_nodup_map hsource.tasks hrow' hrow hid]

/-- A task of the file is as it is in the store it comes from. -/
theorem taskTimings_exportBoards (hsource : source.Orderly) (hboards : (boards.map Board.id).Nodup)
    (hsub : ∀ board ∈ boards, board ∈ source.boards) {bundle : BoardBundle} {task : Task}
    (hbundle : bundle ∈ (source.exportBoards boards everyone).boards) (htask : task ∈ bundle.tasks) (now : Instant) :
    source.taskTimings task.id now =
      some (timings (((source.exportBoards boards everyone).columnChanges task.id).insertionSort
        fun a b ↦ a.recordedAt ≤ b.recordedAt) bundle.board.startedCol bundle.board.finishedCol now) := by
  obtain ⟨board, hboard, rfl⟩ := List.mem_map.mp hbundle
  obtain ⟨row, hrow, honBoard, rfl⟩ := mem_tasks_bundle.mp htask
  have hstored : source.taskRow row.id = some row := hsource.tasks.find?_eq_some_iff.mpr ⟨hrow, rfl⟩
  have hhome : source.board row.boardId = some board :=
    hsource.boards.find?_eq_some_iff.mpr ⟨hsub board hboard, honBoard.symm⟩
  have htrail : (source.exportBoards boards everyone).columnChanges row.id = source.columnChanges row.id :=
    columnChanges_exportBoards hboards hboard fun event hevent htask ↦
      (hsource.history event hevent row hrow htask).trans honBoard
  change source.taskTimings row.id now = some (timings (((source.exportBoards boards everyone).columnChanges
    row.id).insertionSort fun a b ↦ a.recordedAt ≤ b.recordedAt) board.startedCol board.finishedCol now)
  rw [htrail, Store.taskTimings, hstored, Option.bind_some, Store.timingsOf, hhome, Option.map_some,
    Store.transitionsFor]

end Exported

theorem timesKept_iff {outside : Outside} {name : Option Text} {wholeServer : Bool} {clash : Clash}
    (hsource : source.Orderly) (htarget : target.Ahead) (hexport : source.exportEverything name = .ok file)
    (himport : importEverything outside file wholeServer clash target = .ok ((), s)) :
    TimesKept source target s file ∧ NothingMistaken target s file ↔ NoneTaken target file := by
  obtain ⟨boards, hexported, rfl⟩ : ∃ boards, source.exportedBoards name = .ok boards ∧
      source.exportBoards boards name.isNone = file := by
    unfold Store.exportEverything at hexport
    cases hboards : source.exportedBoards name with
    | error error => rw [hboards] at hexport; cases hexport
    | ok boards => rw [hboards] at hexport; exact ⟨boards, rfl, Except.ok.inj hexport⟩
  obtain ⟨hids, hsub, hcolumns⟩ : (boards.map Board.id).Nodup ∧ (∀ board ∈ boards, board ∈ source.boards) ∧
      (source.exportBoards boards name.isNone).columnIds.Nodup := by
    rw [columnIds_exportBoards]
    rcases mem_exportedBoards hexported with hall | ⟨board, hboard, rfl⟩
    · exact ⟨(hall.map _).nodup_iff.mpr hsource.boards, fun _ ↦ hall.mem_iff.mp,
        (hall.flatMap_right _).nodup_iff.mpr hsource.columns⟩
    · refine ⟨List.nodup_singleton _, by simpa using hboard, ?_⟩
      rw [List.flatMap_singleton]
      exact (List.nodup_flatMap.mp hsource.columns).1 board hboard
  obtain ⟨maps, homes, rows, himported⟩ := importEverything_eq_ok hcolumns himport
  rw [himported.nothingMistaken_iff htarget]
  refine and_iff_right_of_imp fun hnone i task hi now ↦ ?_
  obtain ⟨bundle, home, hbundle, htask, ⟨hstarted, hfinished⟩, htimes⟩ := himported.taskTimings htarget hi
  have htasks : ((source.exportBoards boards name.isNone).tasks.map fun task ↦ task.id).Nodup :=
    nodup_tasks_exportBoards hsource hids
  rw [htimes, himported.transitionsFor htarget htasks hi,
    taskTimings_exportBoards hsource hids hsub hbundle htask, timings_rename]
  · exact fun t ht ↦ himported.keepsRole hcolumns hnone hstarted ((List.mem_insertionSort _).mp ht)
  · exact fun t ht ↦ himported.keepsRole hcolumns hnone hfinished ((List.mem_insertionSort _).mp ht)

end Kept

/-! ### A column that was removed -/

/-- A task that waits for review before it is worked on. -/
def reviewed : List Job :=
  [.login 1 Tz.utc false,
    .request ⟨1, false⟩ (.createBoard ⟨text "Yard", [], [text "Later", text "Review", text "Doing", text "Done"],
      2, 0, 3, 0, 0, .default, false, false, [1]⟩),
    .request ⟨1, false⟩ (.createTask 1 none { TaskDraft.default with title := text "Feed" }),
    .request ⟨1, false⟩ (.moveTask 1 2 none false none),
    .request ⟨1, false⟩ (.moveTask 1 3 none false none),
    .request ⟨1, false⟩ (.moveTask 1 4 none false none)]

/-- The same, and the column it waited in is removed. -/
def reviewRemoved : List Job := reviewed ++ [.request ⟨1, false⟩ (.removeColumn 2 none [])]

/-- What jobs leave behind that are done one after another, ten seconds apart. -/
def tenSecondsApart (jobs : List Job) : Store :=
  ((serve Store.empty jobs).play semantics
    ((List.range jobs.length).flatMap fun i ↦ List.replicate 6 (i, .still (10 * i)))).state

/-- The whole server after the jobs, in a file. -/
def backup (jobs : List Job) : ImportFile :=
  (tenSecondsApart jobs).exportBoards (tenSecondsApart jobs).allBoards true

/-- What a fresh server has after it was brought in. -/
def broughtIn (jobs : List Job) : Store :=
  (commit (importEverything (.still 100) (backup jobs) true .refuse) Store.empty).2

theorem importEverything_backup {jobs : List Job}
    (h : (commit (importEverything (.still 100) (backup jobs) true .refuse) Store.empty).1 = .ok ()) :
    importEverything (.still 100) (backup jobs) true .refuse Store.empty = .ok ((), broughtIn jobs) :=
  commit_eq_ok (Prod.ext h rfl)

/-- While every column is there, a backup brings the times back as they were. -/
theorem timesKept_reviewed :
    TimesKept (tenSecondsApart reviewed) Store.empty (broughtIn reviewed) (backup reviewed) ∧
      NothingMistaken Store.empty (broughtIn reviewed) (backup reviewed) := by
  have hsource : (tenSecondsApart reviewed).Orderly :=
    ⟨by decide +kernel, by decide +kernel, by decide +kernel, by decide +kernel⟩
  have htarget : Store.empty.Ahead := ⟨by decide, by decide, by decide⟩
  have hexport : (tenSecondsApart reviewed).exportEverything none = .ok (backup reviewed) := rfl
  have himport : importEverything (.still 100) (backup reviewed) true .refuse Store.empty =
      .ok ((), broughtIn reviewed) := importEverything_backup (by decide +kernel)
  exact (timesKept_iff hsource htarget hexport himport).mpr (by decide +kernel)

/-- The column for reviews is removed, and a backup is brought into a fresh server. There its number goes to
another column, so that the review counts as work. -/
theorem not_timesKept_reviewRemoved :
    (commit (importEverything (.still 100) (backup reviewRemoved) true .refuse) Store.empty).1 = .ok () ∧
      (backup reviewRemoved).tasks[0]?.map (fun task ↦ task.id) = some 1 ∧
      (tenSecondsApart reviewRemoved).taskTimings 1 1000 = some ⟨some 40, some 50, some 10, some 10⟩ ∧
      (broughtIn reviewRemoved).taskTimings (Store.empty.nextTask + 0) 1000 =
        some ⟨some 30, some 50, some 20, some 20⟩ ∧
      2 ∉ (backup reviewRemoved).columnIds ∧
      (broughtIn reviewRemoved).board 1 = (broughtIn reviewRemoved).columnBoard 2 ∧
      (broughtIn reviewRemoved).events[2]?.map EventRow.kind = some (.taskMoved 1 2) :=
  ⟨by decide +kernel, by decide +kernel, by decide +kernel, by decide +kernel, by decide +kernel,
    by decide +kernel, by decide +kernel⟩

end Taskologic.Daemon
