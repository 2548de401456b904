import Taskologic.Daemon.Places
import Taskologic.Daemon.ValidBoards

/-!
# Everything is on its own board

A request puts a task into a column that was on the board it had loaded, and a run makes tasks in the column it was
begun in, on the board of the task the event is about. Columns and tasks keep their boards, so whatever has happened in
between, a task is in a column of its own board, and the tasks a run has made are on the run's board
(`everything_at_home`). The database itself does not say so: it only asks that the column and the run are there.
-/

set_option autoImplicit false
set_option relaxedAutoImplicit false

namespace Taskologic.Daemon

open Taskologic.Core Taskologic.Library

/-! ### Changes -/

/-- The change puts no task anywhere and takes no column away, and roles go to columns of the board. -/
def Effect.Fits (home : BoardId → ColumnId → Prop) : Effect → Prop
  | .setRoles board roles => ∀ pair ∈ roles, home board pair.2
  | .addBoard | .cutColumn _ | .dropBoard _ | .addTask | .place _ _ | .close _ _ | .shift _ _ | .addRun _ | .importRun _
  | .addLink _ | .importLink _ => False
  | _ => True

section Change

variable {home : BoardId → ColumnId → Prop} {effect : Effect} {s s' : Store}

/-- Boards that are changed and keep their ids, their roles and what columns they have. -/
theorem tidy_mapBoards (hs : Tidy home s.places) {f : Board → Board} (hid : ∀ b, (f b).id = b.id)
    (hroles : ∀ b ∈ s.boards, ∀ role, home b.id ((f b).columnFor role))
    (hcolumns : ∀ b column, b.hasColumn column = true → (f b).hasColumn column = true) :
    Tidy home { s with boards := s.boards.map f }.places := by
  refine hs.withBoards ?_ fun e _ b hb hcolumn ↦ ⟨f b, List.mem_map_of_mem hb, hcolumns b _ hcolumn⟩
  exact List.forall_mem_map.mpr fun b hb role ↦ (hid b).symm ▸ hroles b hb role

/-- Roles go to columns of the board. -/
theorem home_setRoles {roles : List (ColumnRole × ColumnId)} {b : Board}
    (hbefore : ∀ role, home b.id (b.columnFor role)) (hroles : ∀ pair ∈ roles, home b.id pair.2) (role : ColumnRole) :
    home b.id ((setRoles roles b).columnFor role) := by
  rcases columnFor_setRoles roles b role with hgiven | ⟨-, hsame⟩
  · exact hroles _ hgiven
  · rw [hsame]
    exact hbefore role

theorem tidy_setRoles (hs : Tidy home s.places) {board : BoardId} {roles : List (ColumnRole × ColumnId)}
    (hroles : ∀ pair ∈ roles, home board pair.2) : Tidy home (s.modifyBoard board (setRoles roles)).places := by
  refine tidy_mapBoards hs (fun b ↦ ?_) (fun b hb role ↦ ?_) fun b column hcolumn ↦ ?_ <;> split_ifs with hboard
  · exact setRoles_id roles b
  · rfl
  · exact home_setRoles (hs.roles b hb) (hboard ▸ hroles) role
  · exact hs.roles b hb role
  · exact (setRoles_hasColumn roles b column).trans hcolumn
  · exact hcolumn

/-- Tasks go with what refers to them. -/
theorem tidy_dropTasks (hs : Tidy home s.places) (gone : TaskRow → Bool) : Tidy home (s.dropTasks gone).places := by
  have hkept {id : TaskId} (hid : (s.tasks.any fun row ↦ gone row && row.id == id) = false) :
      ∀ e ∈ s.places.tasks, e.id = id → e ∈ (s.dropTasks gone).places.tasks := by
    refine List.forall_mem_map.mpr fun row hrow hsame ↦ List.mem_map_of_mem (List.mem_filter.mpr ⟨hrow, ?_⟩)
    have hthis := List.any_eq_false.mp hid row hrow
    simpa [show row.id = id from hsame] using hthis
  have hroots {run : Run} (hrun : run ∈ (s.dropTasks gone).runs) :
      (s.tasks.any fun row ↦ gone row && row.id == run.rootTask) = false := by
    simpa only [Bool.not_eq_true'] using (List.mem_filter.mp hrun).2
  have hlinks {link : TaskLink} (hlink : link ∈ (s.dropTasks gone).links) :
      (s.tasks.any fun row ↦ gone row && row.id == link.taskId) = false ∧
        (s.runs.any fun run ↦ (s.tasks.any fun row ↦ gone row && row.id == run.rootTask) && run.id == link.run) =
          false := by
    simpa only [Bool.and_eq_true, Bool.not_eq_true'] using (List.mem_filter.mp hlink).2
  refine hs.without (List.map_subset _ fun _ hrow ↦ List.mem_of_mem_filter hrow)
    (List.map_subset _ fun _ hlink ↦ List.mem_of_mem_filter hlink)
    (List.map_subset _ fun _ hrun ↦ List.mem_of_mem_filter hrun) ?_ ?_ ?_
  · exact List.forall_mem_map.mpr fun run hrun ↦ hkept (hroots hrun)
  · exact List.forall_mem_map.mpr fun link hlink ↦ hkept (hlinks hlink).1
  · refine List.forall_mem_map.mpr fun link hlink ↦ List.forall_mem_map.mpr fun run hrun hsame ↦ ?_
    refine List.mem_map_of_mem (List.mem_filter.mpr ⟨hrun, ?_⟩)
    have hthis := List.any_eq_false.mp (hlinks hlink).2 run hrun
    simpa [show run.id = link.run from hsame] using hthis

theorem tidy_change (h : Change effect s s') (hfits : effect.Fits home) (hs : Tidy home s.places) :
    Tidy home s'.places := by
  have hsame (hplaces : s'.places = s.places) : Tidy home s'.places := Eq.mpr (congrArg _ hplaces) hs
  cases h with
  | aside hbeside => exact hsame (places_of_aside hbeside)
  | editBoards f hid hroles hcolumns =>
    exact tidy_mapBoards hs hid (fun b hb role ↦ hroles b role ▸ hs.roles b hb role)
      fun b column hcolumn ↦ (hcolumns b column).trans hcolumn
  | setRoles board roles => exact tidy_setRoles hs hfits
  | addColumn board f hid hroles hcolumns =>
    refine tidy_mapBoards hs (fun b ↦ ?_) (fun b hb role ↦ ?_) fun b column hcolumn ↦ ?_ <;> split_ifs
    · exact hid b
    · rfl
    · exact hroles b role ▸ hs.roles b hb role
    · exact hs.roles b hb role
    · rw [hcolumns, hcolumn, Bool.true_or]
    · exact hcolumn
  | editTasks f hid hboard hcolumn =>
    refine hsame (congrArg (fun tasks ↦ { s.places with tasks }) ?_)
    rw [List.map_map]
    refine List.map_congr_left fun row _ ↦ ?_
    rw [Function.comp_apply, taskPlace, hid, hboard, hcolumn]
    rfl
  | save task f hid hboard hcolumn | date task f hid hboard hcolumn =>
    refine hsame (places_modifyTask task fun row ↦ ?_)
    rw [taskPlace, hid, hboard, hcolumn]
    rfl
  | dropTasks gone => exact tidy_dropTasks hs gone
  | startRun run now | finishRun run now | cancelRun run now =>
    refine hsame (places_modifyRun run fun _ ↦ ?_)
    rfl
  | editRuns f =>
    refine hsame (congrArg (fun runs ↦ { s.places with runs }) ?_)
    rw [List.map_map]
    rfl
  | settle task f hf | note task f hf =>
    refine hsame (places_modifyLink task fun link ↦ ?_)
    rw [linkPlace, (hf link).1, (hf link).2.1]
    rfl
  | react run event hactive => exact hs
  | _ => exact hfits.elim

end Change

/-! ### Updates -/

/-- What is known when a section starts: a column has one home, what was seen of a board is at home there, and tasks
have stayed on their boards. -/
structure HomesKnown (home : BoardId → ColumnId → Prop) (t : Recorded Store) : Prop where
  one : ∀ board other column, home board column → home other column → board = other
  seen : ∀ {board}, SawBoard t board → ∀ column, board.hasColumn column = true → home board.id column
  kin : ∀ {task}, SawTask t task → ∀ e ∈ t.now.places.tasks, e.id = task.id → e.boardId = task.boardId
  running : ∀ {board task}, SawBoard t board → SawTask t task → task.columnId = board.startedCol →
    task.boardId = board.id

section Updates

variable {home : BoardId → ColumnId → Prop} {jobs : List Job} {t : Recorded Store} {outside : Outside} {s' : Store}
  {board : Board} {task : Task}

theorem HomesKnown.placed (h : HomesKnown home t) (hs : Tidy home t.now.places) (hsaw : SawOn t board task) :
    OnBoard home board.id task.id t.now.places :=
  ⟨hs, fun e he hid ↦ (h.kin hsaw.2.1 e he hid).trans hsaw.2.2⟩

theorem tidy_createBoard {owner : Uid} {req : CreateBoard} (hs : Tidy home t.now.places)
    (hafter : ∀ b ∈ s'.boards, ∀ column, b.hasColumn column = true → home b.id column)
    (h : createBoard outside owner req t.now = .ok (board, s')) : Tidy home s'.places := by
  obtain ⟨new, hvalid, hboards, htasks, hlinks, hruns, hnextTask, hnextRun⟩ := createBoard_spec h
  have hend : s'.places = { t.now.places with boards := t.now.boards ++ [new] } := by
    rw [Store.places, hboards, htasks, hlinks, hruns, hnextTask, hnextRun]
    rfl
  rw [hend]
  refine hs.withBoards ?_ fun e _ b hb hcolumn ↦ ⟨b, List.mem_append_left _ hb, hcolumn⟩
  refine List.forall_mem_append.mpr ⟨hs.roles, List.forall_mem_singleton.mpr fun role ↦ ?_⟩
  have hnew : new ∈ s'.boards := hboards ▸ List.mem_append_right _ (List.mem_singleton.mpr rfl)
  exact hafter new hnew _ (hvalid.roles role)

/-- A board goes with its tasks, and no task of another board was in one of its columns. -/
theorem tidy_dropBoard {s : Store} (hone : ∀ board other column, home board column → home other column → board = other)
    (hseen : ∀ b ∈ s.boards, ∀ column, b.hasColumn column = true → home b.id column) (hs : Tidy home s.places)
    (id : BoardId) : Tidy home (s.dropBoard id).places := by
  have hdropped := tidy_dropTasks hs fun row ↦ row.boardId == id
  have hruns : (s.dropBoard id).places.runs =
      ((s.dropTasks fun row ↦ row.boardId == id).runs.filter fun run ↦ run.boardId != id).map runPlace := by
    rw [Store.places, Store.dropBoard, List.map_map]
    rfl
  have hrunsLess : (s.dropBoard id).places.runs ⊆ (s.dropTasks fun row ↦ row.boardId == id).places.runs := by
    rw [hruns]
    exact List.map_subset _ fun _ hrun ↦ List.mem_of_mem_filter hrun
  have hlinksLess : (s.dropBoard id).places.links ⊆ (s.dropTasks fun row ↦ row.boardId == id).places.links :=
    List.map_subset _ fun _ hlink ↦ List.mem_of_mem_filter hlink
  have hless := hdropped.without (fun _ he ↦ he) hlinksLess hrunsLess (fun _ _ _ he _ ↦ he) (fun _ _ _ he _ ↦ he) (by
    rw [hruns]
    refine List.forall_mem_map.mpr fun link hlink ↦ List.forall_mem_map.mpr fun run hrun hsame ↦ ?_
    refine List.mem_map_of_mem (List.mem_filter.mpr ⟨hrun, ?_⟩)
    have hgone : (s.runs.any fun r ↦ r.boardId == id && r.id == link.run) = false := by
      simpa only [Bool.not_eq_true'] using (List.mem_filter.mp hlink).2
    have hthis := List.any_eq_false.mp hgone run (List.mem_of_mem_filter hrun)
    simpa [show run.id = link.run from hsame] using hthis)
  refine hless.withBoards (fun b hb ↦ hs.roles b (List.mem_of_mem_filter hb)) ?_
  refine List.forall_mem_map.mpr fun row hrow b hb hcolumn ↦ ⟨b, List.mem_filter.mpr ⟨hb, ?_⟩, hcolumn⟩
  obtain ⟨hstored, hother⟩ := List.mem_filter.mp hrow
  have hon : b.id = row.boardId := hone _ _ _ (hseen b hb _ hcolumn) (hs.taskHome _ (List.mem_map_of_mem hstored))
  simpa [hon] using hother

theorem tidy_removeBoard (hknown : HomesKnown home t) {actor : Uid} {id : BoardId} {r : Unit}
    (hs : Tidy home t.now.places) (h : removeBoard outside actor id t.now = .ok (r, s')) : Tidy home s'.places := by
  simp only [removeBoard, deleteBoard, Tx.bind_eq_ok, recordEvent_eq_ok, demand_eq_ok, Tx.write_eq_ok,
    Prod.mk.injEq] at h
  obtain ⟨_, _, ⟨-, rfl⟩, _, _, ⟨-, -, rfl⟩, -, rfl⟩ := h
  exact tidy_dropBoard hknown.one (fun b hb ↦ hknown.seen (.now hb)) hs id

/-- The tasks of a column that goes are put into another of the board. -/
theorem tidy_moveColumnTasks {s : Store} {removed : ColumnId} {moveTasksTo : Option ColumnId} {r : Unit}
    (hhome : ∀ e ∈ s.places.tasks, e.columnId = removed → ∀ destination, moveTasksTo = some destination →
      home e.boardId destination) (hs : Tidy home s.places)
    (h : moveColumnTasks outside.sweep removed moveTasksTo s = .ok (r, s')) : Tidy home s'.places := by
  cases moveTasksTo with
  | none =>
    obtain ⟨-, rfl⟩ := Prod.ext_iff.mp (Tx.pure_eq_ok.mp h)
    exact hs
  | some destination =>
    obtain ⟨base, _, hbase, h⟩ := Tx.bind_eq_ok.mp h
    obtain rfl := reads_nextPosition _ _ _ _ hbase
    simp only [Tx.bind_eq_ok, demand_eq_ok, Tx.write_eq_ok, Prod.mk.injEq] at h
    obtain ⟨_, s, ⟨hthere, -, rfl⟩, -, rfl⟩ := h
    have hmoved : (s.moveTasks outside.sweep removed destination base).places.tasks =
        s.places.tasks.map fun e ↦ if e.columnId = removed then { e with columnId := destination } else e :=
      map_taskPlace_put (fun _ ↦ Iff.rfl) fun _ ↦ rfl
    refine Eq.mpr (congrArg (fun tasks ↦ Tidy home { s.places with tasks }) hmoved)
      (hs.putWhere (fun e he hin ↦ hhome e he hin destination rfl) fun e he hin ↦ ?_)
    rcases Bool.or_eq_true _ _ ▸ hthere with hcolumn | hnone
    · exact exists_board_of_hasColumn hcolumn
    · obtain ⟨row, hrow, rfl⟩ := List.mem_map.mp he
      have hother := List.all_eq_true.mp hnone row hrow
      exact absurd hin (show row.columnId ≠ removed by simpa using hother)

/-- A column goes when no task is in it. -/
theorem tidy_cutColumn {s : Store} {removed : ColumnId} (hs : Tidy home s.places)
    (hempty : (!s.hasColumn removed || s.tasks.all fun row ↦ row.columnId != removed) = true) :
    Tidy home ({ s with boards := s.boards.map fun b ↦
      { b with columns := b.columns.filter fun c ↦ c.id != removed } } : Store).places := by
  refine hs.withBoards (List.forall_mem_map.mpr fun b hb role ↦ ?_) fun e he b hb hcolumn ↦
    ⟨_, List.mem_map_of_mem hb, ?_⟩
  · have hroles := hs.roles b hb role
    cases role <;> exact hroles
  · obtain ⟨row, hrow, rfl⟩ := List.mem_map.mp he
    have hother : row.columnId ≠ removed := by
      rcases Bool.or_eq_true _ _ ▸ hempty with hgone | hnone
      · rintro rfl
        have hnot : s.hasColumn row.columnId = false := by simpa using hgone
        have hthere : s.hasColumn row.columnId = true :=
          List.find?_isSome.mpr ⟨b, hb, hcolumn⟩
        exact absurd (hnot.symm.trans hthere) (by simp)
      · have hthis := List.all_eq_true.mp hnone row hrow
        simpa using hthis
    rw [hasColumn_eq_any, List.any_eq_true] at hcolumn ⊢
    obtain ⟨c, hc, hid⟩ := hcolumn
    have hsame : c.id = row.columnId := beq_iff_eq.mp hid
    have hkept : (c.id != removed) = true := by simpa [hsame] using hother
    exact ⟨c, List.mem_filter.mpr ⟨hc, hkept⟩, hid⟩

theorem tidy_dropColumn (hknown : HomesKnown home t) {actor : Uid} {plan : ColumnRemoval} {r : Unit}
    (hboard : SawBoard t board) (hplanned : plan.Planned board plan.removed)
    (hs : Tidy home t.now.places) (h : dropColumn outside actor board plan t.now = .ok (r, s')) :
    Tidy home s'.places := by
  have hseen := hknown.seen hboard
  simp only [dropColumn, removeColumn, Tx.bind_eq_ok, recordEvent_eq_ok, demand_eq_ok, Tx.write_eq_ok,
    Prod.mk.injEq] at h
  obtain ⟨_, _, ⟨_, moved, hmoved, _, _, ⟨-, rfl⟩, _, _, ⟨hempty, -, rfl⟩, -, rfl⟩, -, rfl⟩ := h
  have hputs : Tidy home moved.places := by
    refine tidy_moveColumnTasks (fun e he hin destination hto ↦ ?_) hs hmoved
    have hon : e.boardId = board.id := hknown.one _ _ _ (hin ▸ hs.taskHome e he) (hseen _ hplanned.hasColumn)
    exact hon ▸ hseen _ (hplanned.moveTasksTo destination hto).2
  exact tidy_cutColumn (tidy_setRoles hputs fun pair hpair ↦ hseen _ (hplanned.replacements pair hpair).2) hempty

/-- The leftmost column of a board is one of its columns. -/
theorem hasColumn_of_first {column : ColumnId} (h : board.firstColumn.map Column.id = some column) :
    board.hasColumn column = true := by
  obtain ⟨first, hfirst, rfl⟩ := Option.map_eq_some_iff.mp h
  exact hasColumn_of_mem (mem_of_firstMinBy hfirst)

/-- A task goes back into a column of the board. -/
theorem hasColumn_of_restore {column : ColumnId} (h : restoreColumn board task = some column) :
    board.hasColumn column = true := by
  unfold restoreColumn at h
  split at h
  · split_ifs at h with hthere
    · exact Option.some.inj h ▸ hthere
    · exact hasColumn_of_first h
  · exact hasColumn_of_first h

/-- Every update but the reading of a file leaves everything on its own board. -/
theorem tidy_update {α : Type} {update : Update α} {a : α} (hknown : HomesKnown home t) (hids : t.now.Numbered)
    (hwarranted : update.Warranted jobs t) (hfiles : update.imports = false)
    (hafter : ∀ b ∈ s'.boards, ∀ column, b.hasColumn column = true → home b.id column)
    (hs : Tidy home t.now.places) (h : update.work outside t.now = .ok (a, s')) : Tidy home s'.places := by
  have hfits (hall : ∀ effect, update.Allows t.now effect → effect.Fits home) : Tidy home s'.places :=
    (chain_update hids h).keeps (fun effect _ _ hallowed hchange ↦ tidy_change hchange (hall effect hallowed)) hs
  cases update with
  | createBoard owner req => exact tidy_createBoard hs hafter h
  | saveBoard actor before req =>
    obtain ⟨after, _, hupdated, -⟩ := Tx.bind_eq_ok.mp h
    refine hfits fun effect hallowed ↦ ?_
    cases effect with
    | setRoles on roles =>
      obtain ⟨rfl, rfl⟩ := hallowed
      exact fun pair hpair ↦ hknown.seen hwarranted.1 _ ((updateBoard_checked hupdated).2.2.2 pair hpair)
    | _ => trivial
  | removeBoard actor id => exact tidy_removeBoard hknown hs h
  | dropColumn actor board plan =>
    exact tidy_dropColumn hknown hwarranted.1.1 hwarranted.2.1 hs h
  | makeTask actor board column draft => exact tidy_makeTask (hknown.seen hwarranted.1 _ hwarranted.2.1) _ _ _ hs h
  | createFromTemplate actor board id column draft =>
    obtain ⟨template, hsaw, -, hcolumn, -⟩ := hwarranted
    exact tidy_createFromTemplate (hknown.seen hsaw.1 _ hcolumn) _ _ _ hs h
  | spawnRepeat board firstCol task =>
    obtain ⟨hsaw, -, hfirst, -⟩ := hwarranted
    exact tidy_spawnRepeat (hknown.seen hsaw.1 _ (hasColumn_of_first hfirst)) _ _ _ hs h
  | startProgram actor board program column startAt fanOut =>
    obtain ⟨hsaw, hcolumn, -⟩ := hwarranted
    exact tidy_startProgram (hknown.seen hsaw.1) hsaw.2.2 hcolumn _ _ _ hs h
  | moveTaskBy actor board task destination position overrideDeps answer =>
    cases actor with
    | none => exact tidy_moveTaskBy (hknown.seen hwarranted.1.1) (hknown.placed hs hwarranted.1) h
    | some uid =>
      obtain ⟨hboard, htask, hon, -⟩ := hwarranted
      have hsame : task.boardId = board.id := hon.elim id fun hfinish ↦ hknown.running hboard htask hfinish.1
      exact tidy_moveTaskBy (hknown.seen hboard) (hknown.placed hs ⟨hboard, htask, hsame⟩) h
  | giveAnswer board task answer => exact tidy_giveAnswer (hknown.seen hwarranted.1.1) (hknown.placed hs hwarranted.1) h
  | deleteTask actor board task => exact tidy_deleteTask (hknown.seen hwarranted.1.1) (hknown.placed hs hwarranted.1) h
  | bringBack actor board task destination =>
    obtain ⟨hsaw, -, hdestination, -⟩ := hwarranted
    exact tidy_bringBack (hknown.seen hsaw.1 _ (hasColumn_of_restore hdestination)) (hknown.placed hs hsaw) h
  | importEverything file wholeServer clash => exact absurd hfiles (by simp [Update.imports])
  | _ =>
    refine hfits fun effect hallowed ↦ ?_
    cases effect <;> trivial

end Updates

/-! ### Runs -/

/-- Where columns have been at home up to now: each on one board only, and at every time the boards had their columns
there and everything was on its own board. -/
structure Homes (home : BoardId → ColumnId → Prop) (t : Recorded Store) : Prop where
  one : ∀ board other column, home board column → home other column → board = other
  states : ∀ s ∈ t.states, s.Identified ∧ SameIds s t.now ∧
    (∀ b ∈ s.boards, ∀ column, b.hasColumn column = true → home b.id column) ∧ Tidy home s.places

section Homes

variable {home : BoardId → ColumnId → Prop} {t : Recorded Store} {s' : Store}

theorem Homes.known (h : Homes home t) : HomesKnown home t where
  one := h.one
  seen := fun ⟨s, hs, hboard⟩ ↦ (h.states s hs).2.2.1 _ hboard
  kin := by
    rintro task ⟨s, hs, row, hrow, rfl⟩
    obtain ⟨hids, hsame, -⟩ := h.states s hs
    refine List.forall_mem_map.mpr fun later hlater hid ↦ ?_
    have hold : later.id < s.nextTask := (show later.id = row.id from hid) ▸ hids.ids.tasks.below row hrow
    obtain ⟨before, hbefore, hthat, hboard⟩ := hsame.tasks later hlater hold
    obtain rfl : before = row := List.inj_on_of_nodup_map hids.ids.tasks.keyed hbefore hrow (hthat.trans hid)
    exact hboard.symm
  running := by
    rintro board task ⟨s, hs, hboard⟩ ⟨s', hs', row, hrow, rfl⟩ hstarted
    have hcolumn : home board.id board.startedCol := (h.states s hs).2.2.2.roles board hboard .started
    have htask : home row.boardId row.columnId := (h.states s' hs').2.2.2.taskHome _ (List.mem_map_of_mem hrow)
    exact h.one _ _ _ htask ((show row.columnId = board.startedCol from hstarted) ▸ hcolumn)

/-- Columns are at home where they were, and where they are now. -/
def homeAfter (home : BoardId → ColumnId → Prop) (s : Store) (board : BoardId) (column : ColumnId) : Prop :=
  home board column ∨ ∃ b ∈ s.boards, b.id = board ∧ b.hasColumn column = true

/-- A column that is there later is at home where it was, or new. -/
theorem Homes.later (h : Homes home t) (hissued : ∀ board column, home board column → column < t.now.nextColumn)
    (hsame : SameIds t.now s') (hids : s'.Identified) :
    Homes (homeAfter home s') t ∧ ∀ board column, homeAfter home s' board column → column < s'.nextColumn := by
  obtain ⟨-, -, hseen, -⟩ := h.states t.now t.mem_states_now
  have hback {b : Board} {board : BoardId} {column : ColumnId} (hb : b ∈ s'.boards)
      (hcolumn : b.hasColumn column = true) (hold : home board column) : b.id = board := by
    obtain ⟨before, hbefore, hid, hhad⟩ := hsame.columns.before b hb column hcolumn (hissued _ _ hold)
    exact h.one _ _ _ (hid ▸ hseen before hbefore column hhad) hold
  refine ⟨⟨?_, fun s hs ↦ ?_⟩, ?_⟩
  · rintro board other column (hone | ⟨b, hb, rfl, hone⟩) (htwo | ⟨b', hb', rfl, htwo⟩)
    · exact h.one _ _ _ hone htwo
    · exact (hback hb' htwo hone).symm
    · exact hback hb hone htwo
    · exact hids.columns.apart b hb b' hb' column hone htwo
  · obtain ⟨hthen, hsince, hcolumns, htidy⟩ := h.states s hs
    exact ⟨hthen, hsince, fun b hb column hcolumn ↦ .inl (hcolumns b hb column hcolumn), htidy.mono fun _ _ ↦ .inl⟩
  · rintro board column (hold | ⟨b, hb, -, hcolumn⟩)
    · exact (hissued board column hold).trans_le hsame.columns.next
    · exact hids.columns.below b hb column hcolumn

/-- One more state. -/
theorem Homes.next (h : Homes home t) (hsame : SameIds t.now s') (hids : s'.Identified)
    (hcolumns : ∀ b ∈ s'.boards, ∀ column, b.hasColumn column = true → home b.id column)
    (htidy : Tidy home s'.places) : Homes home (t.next s') where
  one := h.one
  states := by
    refine List.forall_mem_append.mpr ⟨fun s hs ↦ ?_, List.forall_mem_singleton.mpr ⟨hids, .refl s', hcolumns, htidy⟩⟩
    obtain ⟨hthen, hsince, hrest⟩ := h.states s hs
    exact ⟨hthen, hsince.trans hsame, hrest⟩

end Homes

/-- Some relation says where columns have been at home up to now. -/
def AllAtHome (t : Recorded Store) : Prop :=
  ∃ home, Homes home t ∧ ∀ board column, home board column → column < t.now.nextColumn

theorem allAtHome_section {jobs : List Job} {t : Recorded Store} {α : Type} {body : Section α} {outside : Outside}
    (hwarranted : body.Warranted jobs t) (hfiles : body.imports = false) (h : AllAtHome t) :
    AllAtHome (t.next (semantics.run body outside t.now).2) := by
  obtain ⟨home, hhomes, hissued⟩ := h
  obtain ⟨hids, -, hseen, htidy⟩ := hhomes.states t.now t.mem_states_now
  have hstill : AllAtHome (t.next t.now) := ⟨home, hhomes.next (.refl _) hids hseen htidy, hissued⟩
  cases body with
  | read query => rwa [snd_run_read]
  | write update =>
    obtain ⟨hsame, hafter⟩ := sameIds_section hids (.write update) outside
    rcases snd_commit (update.work outside) t.now with hsaved | ⟨a, hrun⟩
    · change AllAtHome (t.next (commit (update.work outside) t.now).2)
      rwa [hsaved]
    · obtain ⟨hgrown, hbelow⟩ := hhomes.later hissued hsame hafter
      have hcolumns : ∀ b ∈ (commit (update.work outside) t.now).2.boards, ∀ column, b.hasColumn column = true →
          homeAfter home (commit (update.work outside) t.now).2 b.id column :=
        fun b hb column hcolumn ↦ .inr ⟨b, hb, rfl, hcolumn⟩
      have hend := tidy_update hgrown.known hids.ids hwarranted hfiles hcolumns (htidy.mono fun _ _ ↦ .inl) hrun
      exact ⟨_, hgrown.next hsame hafter hcolumns hend, hbelow⟩

/-- Every task is in a column of its board, and a run, its root and the tasks it has made are on one board. -/
structure Store.AtHome (s : Store) : Prop where
  tasks : ∀ row ∈ s.tasks, ∃ b ∈ s.boards, b.id = row.boardId ∧ b.hasColumn row.columnId = true
  runs : ∀ run ∈ s.runs, ∃ root ∈ s.tasks, root.id = run.rootTask ∧ root.boardId = run.boardId
  links : ∀ link ∈ s.links, ∃ row ∈ s.tasks, ∃ run ∈ s.runs,
    row.id = link.taskId ∧ run.id = link.run ∧ row.boardId = run.boardId

theorem AllAtHome.atHome {t : Recorded Store} (h : AllAtHome t) : t.now.AtHome := by
  obtain ⟨home, hhomes, -⟩ := h
  obtain ⟨-, -, hseen, htidy⟩ := hhomes.states t.now t.mem_states_now
  refine ⟨fun row hrow ↦ ?_, fun run hrun ↦ ?_, fun link hlink ↦ ?_⟩
  · have he : taskPlace row ∈ t.now.places.tasks := List.mem_map_of_mem hrow
    obtain ⟨b, hb, hcolumn⟩ := htidy.taskColumn _ he
    exact ⟨b, hb, hhomes.one _ _ _ (hseen b hb _ hcolumn) (htidy.taskHome _ he), hcolumn⟩
  · have hr : runPlace run ∈ t.now.places.runs := List.mem_map_of_mem hrun
    obtain ⟨e, he, hid⟩ := htidy.runRoot _ hr
    obtain ⟨root, hroot, rfl⟩ := List.mem_map.mp he
    exact ⟨root, hroot, hid, htidy.runBoard _ hr _ he hid⟩
  · have hl : linkPlace link ∈ t.now.places.links := List.mem_map_of_mem hlink
    obtain ⟨e, he, htask⟩ := htidy.linkTask _ hl
    obtain ⟨r, hr, hrun⟩ := htidy.linkRun _ hl
    have hboard := htidy.linkBoard _ hl e he r hr htask hrun
    obtain ⟨row, hrow, rfl⟩ := List.mem_map.mp he
    obtain ⟨run, hmem, rfl⟩ := List.mem_map.mp hr
    exact ⟨row, hrow, run, hmem, htask, hrun, hboard⟩

/-- Whatever the jobs are and in whatever order their sections run, as long as no file is read: every task is in a
column of its own board, every run has its root on its board, and every task a run has made is on the run's board. -/
theorem everything_at_home (jobs : List Job) (schedule : List (ℕ × Outside))
    (hfiles : ∀ h ∈ (serve Store.empty jobs).log semantics schedule, h.body.imports = false) :
    ((serve Store.empty jobs).play semantics schedule).state.AtHome := by
  have hempty : AllAtHome (Recorded.fresh Store.empty) := by
    refine ⟨fun _ _ ↦ False, ⟨fun _ _ _ hone ↦ hone.elim, ?_⟩, fun _ _ hhome ↦ hhome.elim⟩
    refine List.forall_mem_singleton.mpr ⟨.empty, .refl _, fun b hb ↦ (List.not_mem_nil hb).elim, ?_⟩
    constructor <;> exact fun _ hmem ↦ (List.not_mem_nil hmem).elim
  have hgoes : Pool.EachAfter (fun past h ↦ WarrantedAfter jobs past h ∧ h.body.imports = false)
      ((serve Store.empty jobs).log semantics schedule) := fun past h rest hlog ↦
    ⟨eachAfter_warranted Store.empty jobs schedule past h rest hlog,
      hfiles h (hlog ▸ List.mem_append_right _ List.mem_cons_self)⟩
  have hend := (Pool.trail_log (serve Store.empty jobs) schedule).keepsAfter
    (J := fun past s ↦ AllAtHome ⟨past.map Pool.Happening.before, s⟩) hgoes (fun past h hgood hbefore ↦ ?_) hempty
  · exact hend.atHome
  · rw [List.map_append, List.map_singleton]
    exact allAtHome_section hgood.1 hgood.2 hbefore

/-- Where everything is at home, a board can always go. -/
theorem deleteBoard_of_atHome {s : Store} (hids : s.Identified) (h : s.AtHome) (id : BoardId) :
    deleteBoard id s = .ok ((), s.dropBoard id) := by
  refine Tx.bind_eq_ok.mpr ⟨(), s, demand_eq_ok.mpr ⟨List.all_eq_true.mpr fun row hrow ↦ ?_, rfl⟩,
    Tx.write_eq_ok.mpr rfl⟩
  cases hfound : s.board id with
  | none => simp
  | some board =>
    obtain ⟨b, hb, hid, hhas⟩ := h.tasks row hrow
    by_cases hcolumn : board.hasColumn row.columnId = true
    · have hsame : b.id = board.id :=
        hids.columns.apart b hb board (List.mem_of_find?_eq_some hfound) _ hhas hcolumn
      simp [← hid, hsame, Store.id_of_board hfound]
    · simp [hcolumn]

/-- A run is started, and its first task is made. -/
theorem washStart_atHome :
    ((serve Store.empty washDay).play semantics (turnsFrom 0 4)).state.links.length = 2 ∧
      ((serve Store.empty washDay).play semantics (turnsFrom 0 4)).state.AtHome :=
  ⟨by decide +kernel, everything_at_home washDay (turnsFrom 0 4) (by decide +kernel)⟩

end Taskologic.Daemon
