import Taskologic.Daemon.ColumnOrder
import Taskologic.Daemon.SavedAsIs
import Taskologic.Library.Course

/-!
# The position behind the last task

A task is appended ten behind the last live task of its column, and positions are 64 bit integers. Clients choose
them freely and files bring them along, so the position behind the last task need not be one. From a fresh install,
through whatever puts tasks into columns, there is such a position in every column all the time exactly if no step
puts a live task into the last ten places (`appends_along_iff`): neither by a client's own position nor by one from a
file, and no task is appended where one stands in the last twenty. A task that a client puts at the last position ends
the column (`lastPosition_ends_column`).
-/

set_option autoImplicit false
set_option relaxedAutoImplicit false

namespace Taskologic.Daemon

open Taskologic.Core Taskologic.Library

/-! ### Behind the last task -/

/-- In every column there is a position for one more task, and it is behind all live ones. -/
def Store.Appends (s : Store) : Prop :=
  ∀ column, s.nextPosition column < 2 ^ 63 ∧ ∀ row ∈ s.liveIn column, row.position < s.nextPosition column

/-- No live task is in the last ten places. -/
def Store.Clear (s : Store) : Prop :=
  ∀ row ∈ s.tasks, row.isArchived = false → row.position < 2 ^ 63 - 10

/-- No live task of the column is in the last twenty places. -/
def Store.RoomIn (s : Store) (column : ColumnId) : Prop := ∀ row ∈ s.liveIn column, row.position < 2 ^ 63 - 20

section Last

variable {s s' : Store} {column : ColumnId} {row : TaskRow}

/-- The next position is below a bound when the live tasks of the column are ten below it. -/
theorem nextPosition_lt_iff {bound : ℤ} : s.nextPosition column < bound ↔
    (s.liveIn column = [] → 0 < bound) ∧ ∀ row ∈ s.liveIn column, row.position + 10 < bound := by
  rw [Store.nextPosition]
  cases hmax : ((s.liveIn column).map TaskRow.position).max? with
  | none =>
    have hnone : s.liveIn column = [] := List.map_eq_nil_iff.mp (List.max?_eq_none_iff.mp hmax)
    simp [hnone]
  | some most =>
    obtain ⟨hmem, hmost⟩ := List.max?_eq_some_iff.mp hmax
    obtain ⟨last, hlast, rfl⟩ := List.mem_map.mp hmem
    rw [Option.getD_some]
    constructor
    · intro hlt
      refine ⟨fun hnone ↦ absurd hlast (hnone ▸ List.not_mem_nil), fun row hrow ↦ ?_⟩
      have := hmost row.position (List.mem_map_of_mem hrow)
      omega
    · exact fun hall ↦ hall.2 last hlast

theorem appends_iff : s.Appends ↔ s.Clear := by
  constructor
  · intro h row hrow hlive
    have := (nextPosition_lt_iff.mp (h row.columnId).1).2 row (mem_liveIn.mpr ⟨hrow, rfl, hlive⟩)
    omega
  · intro h column
    refine ⟨nextPosition_lt_iff.mpr ⟨fun _ ↦ by norm_num, fun row hrow ↦ ?_⟩, fun row ↦ lt_nextPosition⟩
    have := h row (mem_liveIn.mp hrow).1 (mem_liveIn.mp hrow).2.2
    omega

theorem roomIn_iff : s.RoomIn column ↔ s.nextPosition column < 2 ^ 63 - 10 := by
  rw [nextPosition_lt_iff, and_iff_right fun _ ↦ by norm_num]
  exact forall₂_congr fun row _ ↦ by omega

theorem clear_empty : Store.empty.Clear := fun _ hrow ↦ (List.not_mem_nil hrow).elim

theorem clear_congr (h : s'.tasks = s.tasks) : s'.Clear ↔ s.Clear := by rw [Store.Clear, Store.Clear, h]

/-- One more task. -/
theorem clear_insertTask_iff (h : s.Clear) :
    (s.insertTask row).Clear ↔ (row.isArchived = false → row.position < 2 ^ 63 - 10) := by
  simp only [Store.Clear, Store.insertTask, List.mem_append, List.mem_singleton, or_imp, forall_and, forall_eq]
  exact and_iff_right h

/-- Some tasks have got another place. -/
theorem clear_map_iff {p : TaskRow → Prop} [DecidablePred p] {f : TaskRow → TaskRow} (h : s.Clear)
    (htasks : s'.tasks = s.tasks.map fun row ↦ if p row then f row else row) :
    s'.Clear ↔ ∀ row ∈ s.tasks, p row → (f row).isArchived = false → (f row).position < 2 ^ 63 - 10 := by
  rw [Store.Clear, htasks, List.forall_mem_map]
  refine forall₂_congr fun row hrow ↦ ?_
  by_cases hp : p row
  · rw [if_pos hp]
    exact ⟨fun h _ ↦ h, fun h ↦ h hp⟩
  · rw [if_neg hp]
    exact iff_of_true (h row hrow) fun hrow ↦ absurd hrow hp

end Last

/-! ### What puts tasks into columns -/

/-- A step that puts tasks into columns, with what it goes by. -/
inductive Placement where
  | create (column : ColumnId)
  | move (task : Task) (plan : MovePlan) (position : Option ℤ)
  | restore (task : Task) (destination : ColumnId)
  /-- A task of a file. -/
  | bring (task : Task)
  /-- The tasks of a column that is removed. -/
  | shift (sweep : Sweep) (removed : ColumnId) (destination : Option ColumnId)
  /-- Whatever leaves live tasks where they are or takes them out. -/
  | aside

/-- The step is accepted, and leads from one store to another. -/
inductive PlacedBy : Placement → Store → Store → Prop where
  | create {s s' : Store} {outside : Outside} {board : Board} {column : ColumnId} {draft : TaskDraft} {creator : Uid}
      {fromTemplate : Option TemplateId} {task : Task}
      (h : createTask outside board column draft creator fromTemplate s = .ok (task, s')) :
      PlacedBy (.create column) s s'
  | move {s s' : Store} {outside : Outside} {task moved : Task} {plan : MovePlan} {position : Option ℤ}
      (h : applyMove outside task plan position s = .ok (moved, s')) : PlacedBy (.move task plan position) s s'
  | restore {s s' : Store} {outside : Outside} {task restored : Task} {destination : ColumnId}
      (h : restoreTask outside task destination s = .ok (restored, s')) : PlacedBy (.restore task destination) s s'
  | bring {s s' : Store} {outside : Outside} {board : BoardId} {maps : Maps} {task : Task} {ids : TaskId × TaskId}
      (h : importTask outside board maps task s = .ok (ids, s')) : PlacedBy (.bring task) s s'
  | shift {s s' : Store} {sweep : Sweep} {removed : ColumnId} {destination : Option ColumnId}
      (h : moveColumnTasks sweep removed destination s = .ok ((), s')) :
      PlacedBy (.shift sweep removed destination) s s'
  | aside {s s' : Store} (h : ∀ row ∈ s'.tasks, row.isArchived = false → ∃ before ∈ s.tasks,
      before.isArchived = false ∧ before.columnId = row.columnId ∧ before.position = row.position) :
      PlacedBy .aside s s'

/-- What a step goes by keeps it out of the last ten places. -/
def Store.HasRoomFor (s : Store) : Placement → Prop
  | .create column => s.RoomIn column
  | .move task plan position => (∃ row ∈ s.tasks, row.id = task.id ∧ row.isArchived = false) →
      match position with
      | some position => position < 2 ^ 63 - 10
      | none => if plan.source = plan.destination then task.position < 2 ^ 63 - 10 else s.RoomIn plan.destination
  | .restore _ destination => s.RoomIn destination
  | .bring task => task.isArchived = false → task.position < 2 ^ 63 - 10
  | .shift sweep removed (some destination) => ∀ row ∈ s.liveIn removed,
      (s.liveIn destination = [] → (crowd s sweep removed row * 10 : ℤ) < 2 ^ 63 - 10) ∧
        ∀ other ∈ s.liveIn destination, other.position + crowd s sweep removed row * 10 < 2 ^ 63 - 20
  | .shift _ _ none => True
  | .aside => True

section Steps

variable {s s' : Store}

theorem clear_create_iff {outside : Outside} {board : Board} {column : ColumnId} {draft : TaskDraft} {creator : Uid}
    {fromTemplate : Option TemplateId} {task : Task} (hs : s.Clear)
    (h : createTask outside board column draft creator fromTemplate s = .ok (task, s')) :
    s'.Clear ↔ s.RoomIn column := by
  simp only [createTask, Tx.bind_eq_ok, Tx.lift_eq_ok, Tx.read_eq_ok, Tx.require_eq_ok, demand_eq_ok, nextPosition,
    Tx.check_eq_ok, Tx.pure_eq_ok, Tx.write_eq_ok, Prod.mk.injEq, recordEvent_eq_ok, requireTask_eq_ok] at h
  obtain ⟨_, _, ⟨_, -, -, rfl⟩, id, _, ⟨rfl, rfl⟩, _, _, ⟨rfl, rfl⟩, _, _, ⟨shortId, -, rfl, rfl⟩, _, _,
    ⟨_, _, ⟨rfl, rfl⟩, _, _, ⟨-, -, rfl⟩, rfl, rfl⟩, _, _, ⟨-, -, rfl⟩, _, _, ⟨-, rfl⟩, _, _, hrelations, _, _,
    ⟨-, rfl⟩, _, -, rfl, rfl⟩ := h
  have htasks := tasks_writeRelations _ _ _ _ _ _ hrelations
  refine (clear_congr htasks).trans ((clear_insertTask_iff hs).trans ?_)
  rw [roomIn_iff]
  exact ⟨fun hlive ↦ hlive rfl, fun hroom _ ↦ hroom⟩

theorem clear_move_iff {outside : Outside} {task moved : Task} {plan : MovePlan} {position : Option ℤ} (hs : s.Clear)
    (h : applyMove outside task plan position s = .ok (moved, s')) :
    s'.Clear ↔ s.HasRoomFor (.move task plan position) := by
  rw [applyMove, Tx.bind_eq_ok] at h
  obtain ⟨p, _, hposition, h⟩ := h
  obtain rfl := reads_movedPosition _ _ _ _ _ _ hposition
  have htasks : s'.tasks = (s.modifyTask task.id (movedRow plan p)).tasks := by
    simp only [Tx.bind_eq_ok, demand_eq_ok, Tx.write_eq_ok, Prod.mk.injEq] at h
    obtain ⟨_, _, ⟨-, -, rfl⟩, _, _, ⟨-, rfl⟩, h⟩ := h
    split_ifs at h <;>
      simp only [Tx.bind_eq_ok, recordEvent_eq_ok, Prod.mk.injEq, requireTask_eq_ok] at h
    · obtain ⟨_, _, ⟨-, rfl⟩, _, -, -, rfl⟩ := h
      rfl
    · obtain ⟨_, -, -, rfl⟩ := h
      rfl
  have hput : s'.Clear ↔ ((∃ row ∈ s.tasks, row.id = task.id ∧ row.isArchived = false) → p < 2 ^ 63 - 10) := by
    rw [clear_map_iff hs htasks]
    constructor
    · rintro hall ⟨row, hrow, hid, hlive⟩
      exact hall row hrow hid hlive
    · intro himp row hrow hid hlive
      exact himp ⟨row, hrow, hid, hlive⟩
  rw [hput]
  refine imp_congr_right fun _ ↦ ?_
  cases position with
  | some position =>
    simp only [movedPosition, Tx.pure_eq_ok, Prod.mk.injEq] at hposition
    rw [hposition.1]
  | none =>
    simp only [movedPosition] at hposition
    split_ifs at hposition ⊢
    · simp only [Tx.pure_eq_ok, Prod.mk.injEq] at hposition
      rw [hposition.1]
    · simp only [nextPosition, Tx.bind_eq_ok, Tx.read_eq_ok, Tx.check_eq_ok, Tx.pure_eq_ok, Prod.mk.injEq] at hposition
      obtain ⟨_, _, ⟨rfl, rfl⟩, _, _, -, rfl, -⟩ := hposition
      exact roomIn_iff.symm

/-- A task that is restored is live again. -/
theorem clear_restore_iff {outside : Outside} {task restored : Task} {destination : ColumnId} (hs : s.Clear)
    (h : restoreTask outside task destination s = .ok (restored, s')) : s'.Clear ↔ s.RoomIn destination := by
  simp only [restoreTask, nextPosition, Tx.bind_eq_ok, Tx.read_eq_ok, Tx.check_eq_ok, Tx.pure_eq_ok, demand_eq_ok,
    Tx.write_eq_ok, Prod.mk.injEq, requireTask_eq_ok] at h
  obtain ⟨_, _, ⟨_, _, ⟨rfl, rfl⟩, _, _, ⟨-, -, rfl⟩, rfl, rfl⟩, _, _, ⟨-, -, rfl⟩, _, _, ⟨-, rfl⟩, _, _, ⟨-, rfl⟩,
    _, hfound, -, rfl⟩ := h
  rw [roomIn_iff, clear_map_iff hs rfl]
  constructor
  · intro hall
    obtain ⟨row, hrow, hsame⟩ := List.mem_map.mp (List.mem_of_find?_eq_some (Store.toTaskRow_of_task hfound))
    have hid : row.id = task.id := by
      by_contra hother
      rw [if_neg hother] at hsame
      exact hother (hsame ▸ Store.id_of_task hfound)
    exact hall row hrow hid rfl
  · exact fun hroom row hrow hid hlive ↦ hroom

theorem clear_bring_iff {outside : Outside} {board : BoardId} {maps : Maps} {task : Task} {ids : TaskId × TaskId}
    (hs : s.Clear) (h : importTask outside board maps task s = .ok (ids, s')) :
    s'.Clear ↔ s.HasRoomFor (.bring task) := by
  simp only [importTask, Tx.bind_eq_ok, Tx.require_eq_ok, Tx.read_eq_ok, Prod.mk.injEq] at h
  obtain ⟨_, _, ⟨_, -, rfl, rfl⟩, _, _, ⟨rfl, rfl⟩, _, _, ⟨rfl, rfl⟩, h⟩ := h
  split_ifs at h <;>
    simp only [Tx.bind_eq_ok, Tx.pure_eq_ok, Tx.require_eq_ok, Tx.write_eq_ok, Prod.mk.injEq] at h
  · obtain ⟨_, _, ⟨_, -, -, rfl⟩, _, _, ⟨-, rfl⟩, -, rfl⟩ := h
    exact clear_insertTask_iff hs
  · obtain ⟨_, _, ⟨-, rfl⟩, _, _, ⟨-, rfl⟩, -, rfl⟩ := h
    exact clear_insertTask_iff hs

theorem clear_shift_iff {sweep : Sweep} {removed : ColumnId} {destination : Option ColumnId} (hs : s.Clear)
    (h : moveColumnTasks sweep removed destination s = .ok ((), s')) :
    s'.Clear ↔ s.HasRoomFor (.shift sweep removed destination) := by
  cases destination with
  | none =>
    simp only [moveColumnTasks, Tx.pure_eq_ok, Prod.mk.injEq] at h
    obtain ⟨-, rfl⟩ := h
    exact iff_of_true hs trivial
  | some destination =>
    simp only [moveColumnTasks, nextPosition, Tx.bind_eq_ok, Tx.read_eq_ok, Tx.check_eq_ok, Tx.pure_eq_ok,
      demand_eq_ok, Tx.write_eq_ok, Prod.mk.injEq] at h
    obtain ⟨_, _, ⟨_, _, ⟨rfl, rfl⟩, _, _, ⟨-, -, rfl⟩, rfl, rfl⟩, _, _, ⟨-, -, rfl⟩, -, rfl⟩ := h
    rw [clear_map_iff hs rfl]
    have hput (row : TaskRow) : s.nextPosition destination + crowd s sweep removed row * 10 < 2 ^ 63 - 10 ↔
        (s.liveIn destination = [] → (crowd s sweep removed row * 10 : ℤ) < 2 ^ 63 - 10) ∧
          ∀ other ∈ s.liveIn destination, other.position + crowd s sweep removed row * 10 < 2 ^ 63 - 20 := by
      rw [← lt_sub_iff_add_lt, nextPosition_lt_iff, sub_pos]
      exact and_congr_right fun _ ↦ forall₂_congr fun other _ ↦ by omega
    constructor
    · intro hall row hrow
      obtain ⟨hmem, hcolumn, hlive⟩ := mem_liveIn.mp hrow
      exact (hput row).mp (hall row hmem hcolumn hlive)
    · intro hroom row hmem hcolumn hlive
      exact (hput row).mpr (hroom row (mem_liveIn.mpr ⟨hmem, hcolumn, hlive⟩))

/-- An accepted step keeps a position behind the last task of every column exactly if there is room for it. -/
theorem clear_placed_iff {placement : Placement} (h : PlacedBy placement s s') (hs : s.Clear) :
    s'.Clear ↔ s.HasRoomFor placement := by
  cases h with
  | create h => exact clear_create_iff hs h
  | move h => exact clear_move_iff hs h
  | restore h => exact clear_restore_iff hs h
  | bring h => exact clear_bring_iff hs h
  | shift h => exact clear_shift_iff hs h
  | aside h =>
    refine iff_of_true (fun row hrow hlive ↦ ?_) trivial
    obtain ⟨before, hbefore, hthen, -, hposition⟩ := h row hrow hlive
    exact hposition ▸ hs before hbefore hthen

/-- Along a course from a fresh install no live task gets into the last ten places exactly if every step has room. -/
theorem clear_along_iff {past : List (Store × Placement)} (h : Course PlacedBy Store.empty past s) :
    ((∀ entry ∈ past, entry.1.Clear) ∧ s.Clear) ↔ ∀ entry ∈ past, entry.1.HasRoomFor entry.2 :=
  h.forall_iff clear_empty fun _ _ _ hstep hs ↦ clear_placed_iff hstep hs

/-- From a fresh install, there is a position behind the last task of every column all the time exactly if there is
room for every step. -/
theorem appends_along_iff {past : List (Store × Placement)} (h : Course PlacedBy Store.empty past s) :
    ((∀ entry ∈ past, entry.1.Appends) ∧ s.Appends) ↔ ∀ entry ∈ past, entry.1.HasRoomFor entry.2 := by
  simp only [appends_iff]
  exact clear_along_iff h

end Steps

/-! ### The last position there is -/

/-- A board with nothing on it. -/
def bareYard : Store :=
  { Store.empty with boards := [boardWithMembers 1 [1]], nextBoard := 2, nextColumn := 5 }

/-- A task in the first column. -/
def feedOnYard : Work Task :=
  createTask (.still 0) (boardWithMembers 1 [1]) 1 { TaskDraft.default with title := text "Feed" } 1 none

def withFeed : Store := (commit feedOnYard bareYard).2

/-- The board comes, and then the task. -/
theorem withFeed_appends : (∀ entry ∈ [(bareYard, Placement.create 1), (Store.empty, .aside)], entry.1.Appends) ∧
    withFeed.Appends := by
  have hmade : feedOnYard bareYard = .ok ((withFeed.task 1).get (by decide +kernel), withFeed) := by rfl
  have hcourse : Course PlacedBy Store.empty [(bareYard, Placement.create 1), (Store.empty, .aside)] withFeed :=
    (Course.start.next (.aside (by decide))).next (.create hmade)
  have hroom : ∀ row ∈ bareYard.liveIn 1, row.position < 2 ^ 63 - 20 := by decide
  exact (appends_along_iff hcourse).mpr (List.forall_mem_cons.mpr ⟨hroom, List.forall_mem_singleton.mpr trivial⟩)

/-- A board with a task that its creator moves to the last position there is. -/
def toLastPosition : List Job :=
  [.login 1 Tz.utc false,
    .request ⟨1, false⟩ (.createBoard ⟨text "Yard", [], [text "To do", text "Doing", text "Paused", text "Done"],
      1, 2, 3, 0, 0, .default, false, false, [1]⟩),
    .request ⟨1, false⟩ (.createTask 1 none { TaskDraft.default with title := text "Feed" }),
    .request ⟨1, false⟩ (.moveTask 1 1 (some (2 ^ 63 - 1)) false none)]

/-- All of it is accepted, there is no position behind the task, and the next task is refused. -/
theorem lastPosition_ends_column :
    (∀ i < 4, accepted ((serve Store.empty toLastPosition).play semantics
      ((List.range 4).flatMap fun i ↦ List.replicate 3 (i, .still 10))) i) ∧
    ¬ (leftBehind toLastPosition).Appends ∧
    ((serve (leftBehind toLastPosition) [.request ⟨1, false⟩
      (.createTask 1 none { TaskDraft.default with title := text "Muck out" })]).play semantics
        (List.replicate 3 (0, .still 20))).answers = [some (.error .internal)] := by
  refine ⟨?_, fun h ↦ absurd (h 1).1 (by decide +kernel), by decide +kernel⟩
  unfold accepted
  decide +kernel

end Taskologic.Daemon
