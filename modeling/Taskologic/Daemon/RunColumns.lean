import Taskologic.Daemon.OverRuns
import Taskologic.Daemon.Warrants

/-!
# The column a run makes its tasks in

A column gets an id nobody has used and stays on its board (`ColumnsStay`). A run is started with a column its board
had when it was loaded, so the column is still one of that board's or of none. From then on the run's column is taken
away only by a request that removes it: the removal of a column does not look at the runs (`active_run_column`).
-/

set_option autoImplicit false
set_option relaxedAutoImplicit false

namespace Taskologic.Daemon

open Taskologic.Core Taskologic.Library

/-! ### Columns -/

/-- Column ids are given out in order, and no two boards share one. -/
structure Store.ColumnsIssued (s : Store) : Prop where
  below : ∀ b ∈ s.boards, ∀ column, b.hasColumn column = true → column < s.nextColumn
  apart : ∀ b ∈ s.boards, ∀ b' ∈ s.boards, ∀ column, b.hasColumn column = true → b'.hasColumn column = true →
    b.id = b'.id

/-- Columns that were there before are on the boards they were on. -/
structure ColumnsStay (s s' : Store) : Prop where
  next : s.nextColumn ≤ s'.nextColumn
  before : ∀ b ∈ s'.boards, ∀ column, b.hasColumn column = true → column < s.nextColumn →
    ∃ b' ∈ s.boards, b'.id = b.id ∧ b'.hasColumn column = true

theorem ColumnsStay.refl (s : Store) : ColumnsStay s s where
  next := le_rfl
  before b hb _ hcolumn _ := ⟨b, hb, rfl, hcolumn⟩

theorem ColumnsStay.trans {s s' s'' : Store} (hone : ColumnsStay s s') (htwo : ColumnsStay s' s'') :
    ColumnsStay s s'' where
  next := hone.next.trans htwo.next
  before b hb column hcolumn hold := by
    obtain ⟨b', hb', hid, hcolumn'⟩ := htwo.before b hb column hcolumn (hold.trans_le hone.next)
    obtain ⟨b'', hb'', hid', hcolumn''⟩ := hone.before b' hb' column hcolumn' hold
    exact ⟨b'', hb'', hid'.trans hid, hcolumn''⟩

section Change

variable {effect : Effect} {s s' : Store}

theorem nextColumn_le (h : Change effect s s') : s.nextColumn ≤ s'.nextColumn := by
  cases h with
  | aside hbeside => exact hbeside.nextColumn.ge
  | addBoard board width hid hcolumns => exact Nat.le_add_right _ _
  | addColumn board f hid hroles hcolumns => exact Nat.le_succ _
  | _ => exact le_rfl

theorem hasColumn_of_filter {b : Board} {p : Column → Bool} {column : ColumnId}
    (h : Board.hasColumn { b with columns := b.columns.filter p } column = true) : b.hasColumn column = true := by
  rw [hasColumn_eq_any, List.any_eq_true] at h ⊢
  obtain ⟨c, hc, hid⟩ := h
  exact ⟨c, List.mem_of_mem_filter hc, hid⟩

/-- What is a column of a board after a change was one before, or is new and on this board only. -/
theorem column_before (h : Change effect s s') (hissued : s.ColumnsIssued) {b : Board} (hb : b ∈ s'.boards)
    {column : ColumnId} (hcolumn : b.hasColumn column = true) :
    (∃ b' ∈ s.boards, b'.id = b.id ∧ b'.hasColumn column = true) ∨
      (s.nextColumn ≤ column ∧ column < s'.nextColumn) ∧
        ∀ b' ∈ s'.boards, b'.hasColumn column = true → b'.id = b.id := by
  have hold (hmem : b ∈ s.boards) : ∃ b' ∈ s.boards, b'.id = b.id ∧ b'.hasColumn column = true :=
    ⟨b, hmem, rfl, hcolumn⟩
  cases h with
  | aside hbeside => exact .inl (hold (hbeside.boards ▸ hb))
  | addBoard board width hid hcolumns =>
    rcases List.mem_append.mp hb with hmem | hlast
    · exact .inl (hold hmem)
    · obtain rfl := List.mem_singleton.mp hlast
      rw [hasColumn_eq_any, List.any_eq_true] at hcolumn
      obtain ⟨c, hc, hsame⟩ := hcolumn
      obtain rfl : c.id = column := by simpa using hsame
      refine .inr ⟨hcolumns c hc, fun b' hb' hother ↦ ?_⟩
      rcases List.mem_append.mp hb' with hmem | hlast
      · exact absurd (hissued.below b' hmem _ hother) (Nat.not_lt.mpr (hcolumns c hc).1)
      · rw [List.mem_singleton.mp hlast]
  | editBoards f hid hroles hcolumns =>
    obtain ⟨before, hbefore, rfl⟩ := List.mem_map.mp hb
    exact .inl ⟨before, hbefore, (hid before).symm, hcolumns before column ▸ hcolumn⟩
  | setRoles board roles =>
    obtain ⟨before, hbefore, rfl⟩ := List.mem_map.mp hb
    refine .inl ⟨before, hbefore, ?_⟩
    split_ifs at hcolumn ⊢ with hboard
    · exact ⟨(setRoles_id roles before).symm, setRoles_hasColumn roles before column ▸ hcolumn⟩
    · exact ⟨rfl, hcolumn⟩
  | addColumn board f hid hroles hcolumns =>
    obtain ⟨before, hbefore, rfl⟩ := List.mem_map.mp hb
    split_ifs at hcolumn ⊢ with hboard
    · rw [hcolumns, Bool.or_eq_true] at hcolumn
      rcases hcolumn with hcolumn | hnew
      · exact .inl ⟨before, hbefore, (hid before).symm, hcolumn⟩
      · obtain rfl : column = s.nextColumn := by simpa using hnew
        refine .inr ⟨⟨le_rfl, Nat.lt_succ_self _⟩, fun b' hb' hother ↦ ?_⟩
        obtain ⟨other, hmem, rfl⟩ := List.mem_map.mp hb'
        split_ifs at hother ⊢ with hsame
        · rw [hid, hid, hsame, hboard]
        · exact absurd (hissued.below other hmem _ hother) (Nat.lt_irrefl _)
    · exact .inl ⟨before, hbefore, rfl, hcolumn⟩
  | cutColumn cut =>
    obtain ⟨before, hbefore, rfl⟩ := List.mem_map.mp hb
    exact .inl ⟨before, hbefore, rfl, hasColumn_of_filter hcolumn⟩
  | dropBoard board => exact .inl (hold (List.mem_of_mem_filter hb))
  | _ => exact .inl (hold hb)

/-- A change leaves columns with their boards. -/
theorem columnsStay_change (h : Change effect s s') (hissued : s.ColumnsIssued) :
    ColumnsStay s s' ∧ s'.ColumnsIssued := by
  have hnext := nextColumn_le h
  refine ⟨⟨hnext, fun b hb column hcolumn hold ↦ ?_⟩, fun b hb column hcolumn ↦ ?_, fun b hb b' hb' column hcolumn hother ↦ ?_⟩
  · exact (column_before h hissued hb hcolumn).resolve_right fun hnew ↦ absurd hold (Nat.not_lt.mpr hnew.1.1)
  · rcases column_before h hissued hb hcolumn with ⟨before, hbefore, -, hbeforeColumn⟩ | hnew
    · exact (hissued.below before hbefore column hbeforeColumn).trans_le hnext
    · exact hnew.1.2
  · rcases column_before h hissued hb hcolumn with ⟨before, hbefore, hid, hbeforeColumn⟩ | hnew
    · rcases column_before h hissued hb' hother with ⟨before', hbefore', hid', hbeforeColumn'⟩ | hnew
      · exact hid.symm.trans ((hissued.apart before hbefore before' hbefore' column hbeforeColumn hbeforeColumn').trans
          hid')
      · exact hnew.2 b hb hcolumn
    · exact (hnew.2 b' hb' hother).symm

end Change

/-! ### Where a run makes its tasks -/

/-- The run's column is one of its board's. -/
def Store.Placed (s : Store) (run : Run) : Prop :=
  ∃ b ∈ s.boards, b.id = run.boardId ∧ b.hasColumn run.columnId = true

section Placed

variable {effect : Effect} {s s' : Store}

/-- A change that is neither the removal of the column nor of the board leaves a run where it is. -/
theorem placed_change (h : Change effect s s') {run : Run} (hplaced : s.Placed run)
    (hcut : effect ≠ .cutColumn run.columnId) (hdrop : effect ≠ .dropBoard run.boardId) : s'.Placed run := by
  obtain ⟨b, hb, hid, hcolumn⟩ := hplaced
  have hsame (hboards : s'.boards = s.boards) : s'.Placed run := ⟨b, hboards ▸ hb, hid, hcolumn⟩
  cases h with
  | aside hbeside => exact hsame hbeside.boards
  | addBoard board width => exact ⟨b, List.mem_append_left _ hb, hid, hcolumn⟩
  | editBoards f hidf hroles hcolumns =>
    exact ⟨f b, List.mem_map_of_mem hb, (hidf b).trans hid, (hcolumns b _).trans hcolumn⟩
  | setRoles board roles =>
    refine ⟨_, List.mem_map_of_mem hb, ?_⟩
    split_ifs
    · exact ⟨(setRoles_id roles b).trans hid, (setRoles_hasColumn roles b _).trans hcolumn⟩
    · exact ⟨hid, hcolumn⟩
  | addColumn board f hidf hroles hcolumns =>
    refine ⟨_, List.mem_map_of_mem hb, ?_⟩
    split_ifs
    · exact ⟨(hidf b).trans hid, by rw [hcolumns, hcolumn, Bool.true_or]⟩
    · exact ⟨hid, hcolumn⟩
  | cutColumn column =>
    refine ⟨_, List.mem_map_of_mem hb, hid, ?_⟩
    rw [hasColumn_eq_any, List.any_eq_true] at hcolumn ⊢
    obtain ⟨c, hc, hmatch⟩ := hcolumn
    have hrun : c.id = run.columnId := by simpa using hmatch
    refine ⟨c, List.mem_filter.mpr ⟨hc, ?_⟩, hmatch⟩
    simpa using fun hother : c.id = column ↦ hcut (by rw [← hrun, hother])
  | dropBoard board =>
    refine ⟨b, List.mem_filter.mpr ⟨hb, ?_⟩, hid, hcolumn⟩
    simpa using fun hother : b.id = board ↦ hdrop (by rw [← hother, hid])
  | _ => exact hsame rfl

/-- A run of a board that goes goes with it. -/
theorem boardId_ne_of_dropBoard {board : BoardId} {run : Run} (h : run ∈ (s.dropBoard board).runs) :
    run.boardId ≠ board := by
  obtain ⟨before, hbefore, rfl⟩ := List.mem_map.mp h
  simpa using (List.mem_filter.mp hbefore).2

end Placed

/-! ### Sections -/

/-- The column the update takes away. -/
def Update.removes {α : Type} : Update α → Option ColumnId
  | .dropColumn _ _ plan => some plan.removed
  | _ => none

/-- The update reads a file. -/
def Update.imports {α : Type} : Update α → Bool
  | .importEverything _ _ _ => true
  | _ => false

def Section.removes {α : Type} : Section α → Option ColumnId
  | .read _ => none
  | .write update => update.removes

def Section.imports {α : Type} : Section α → Bool
  | .read _ => false
  | .write update => update.imports

/-- The run's column was taken away, or the run came with a file. -/
def Excused (past : List Happened) (run : Run) : Prop :=
  ∃ h ∈ past, h.body.removes = some run.columnId ∨
    h.body.imports = true ∧ h.before.nextRun ≤ run.id ∧ run.id < (h.after semantics).nextRun

section Allowed

variable {α : Type} {update : Update α} {s : Store}

theorem removes_of_allows {column : ColumnId} (h : update.Allows s (.cutColumn column)) :
    update.removes = some column := by
  cases update with
  | dropColumn actor board plan => exact congrArg some (Eq.symm h)
  | moveTaskBy actor board task destination position overrideDeps answer =>
    obtain ⟨run, event, hreacts⟩ := h
    exact hreacts.elim
  | giveAnswer board task answer | deleteTask actor board task =>
    obtain ⟨run, event, hreacts, -⟩ := h
    exact hreacts.elim
  | startProgram actor board program column startAt fanOut =>
    obtain ⟨run, -, hreacts⟩ := h
    exact hreacts.elim
  | _ => exact h.elim

theorem imports_of_allows {run : Run} (h : update.Allows s (.importRun run)) : update.imports = true := by
  cases update with
  | importEverything file wholeServer clash => rfl
  | moveTaskBy actor board task destination position overrideDeps answer =>
    obtain ⟨run, event, hreacts⟩ := h
    exact hreacts.elim
  | giveAnswer board task answer | deleteTask actor board task =>
    obtain ⟨run, event, hreacts, -⟩ := h
    exact hreacts.elim
  | startProgram actor board program column startAt fanOut =>
    obtain ⟨run, -, hreacts⟩ := h
    exact hreacts.elim
  | _ => exact h.elim

theorem exists_board_of_hasColumn {column : ColumnId} (h : s.hasColumn column = true) :
    ∃ b ∈ s.boards, b.hasColumn column = true := by
  obtain ⟨b, hb⟩ := Option.isSome_iff_exists.mp h
  exact ⟨b, List.mem_of_find?_eq_some hb, List.find?_some (p := fun b : Board ↦ b.hasColumn column) hb⟩

/-- A run begins in a column its board had when the program was loaded. -/
theorem started_of_allows {jobs : List Job} {t : Recorded Store} {run : Run} (h : update.Allows s (.addRun run))
    (hwarranted : update.Warranted jobs t) :
    ∃ board, SawBoard t board ∧ board.id = run.boardId ∧ board.hasColumn run.columnId = true := by
  cases update with
  | startProgram actor board program column startAt fanOut =>
    obtain ⟨hcolumn, hboard, -⟩ := h
    obtain ⟨⟨hseen, -, hprogram⟩, hhas, -⟩ := hwarranted
    exact ⟨board, hseen, hprogram.symm.trans hboard.symm, hcolumn ▸ hhas⟩
  | moveTaskBy actor board task destination position overrideDeps answer =>
    obtain ⟨run, event, hreacts⟩ := h
    exact hreacts.elim
  | giveAnswer board task answer | deleteTask actor board task =>
    obtain ⟨run, event, hreacts, -⟩ := h
    exact hreacts.elim
  | _ => exact h.elim

end Allowed

/-- Every active run's column is one of its board's, or there is an excuse. -/
def RunsPlaced (past : List Happened) (s : Store) : Prop :=
  ∀ run ∈ s.runs, run.isActive = true → s.Placed run ∨ Excused past run

/-- What is known after what has happened: ids and columns are in order, columns have stayed where they were, and
runs are settled. -/
structure RunsSettled (past : List Happened) (s : Store) : Prop where
  ids : s.Numbered
  columns : s.ColumnsIssued
  stay : ∀ h ∈ past, h.before.ColumnsIssued ∧ ColumnsStay h.before s
  settled : RunsPlaced past s

section Steps

variable {jobs : List Job} {past : List Happened} {s s' : Store}

/-- In the middle of an update. -/
structure Settling {α : Type} (past : List Happened) (update : Update α) (s t : Store) : Prop where
  ids : t.Numbered
  columns : t.ColumnsIssued
  stay : ColumnsStay s t
  next : s.nextRun ≤ t.nextRun
  settled : ∀ run ∈ t.runs, run.isActive = true → (t.Placed run ∨ Excused past run) ∨
    update.removes = some run.columnId ∨ update.imports = true ∧ s.nextRun ≤ run.id

theorem settling_change {α : Type} {update : Update α} {effect : Effect} {t t' : Store}
    (hbefore : RunsSettled past s) (hwarranted : update.Warranted jobs ⟨past.map Pool.Happening.before, s⟩)
    (hallowed : update.Allows s effect) (h : Change effect t t') (hsettling : Settling past update s t) :
    Settling past update s t' := by
  obtain ⟨hstay, hissued⟩ := columnsStay_change h hsettling.columns
  refine ⟨hsettling.ids.change h, hissued, hsettling.stay.trans hstay,
    hsettling.next.trans (next_le_of_change h).1, fun run hrun hactive ↦ ?_⟩
  rcases run_before h hrun with ⟨before, hmem, hid, -, hboard, hcolumn, hwas⟩ | ⟨hid, hadded⟩
  · have hsame : t.Placed before ↔ t.Placed run := by rw [Store.Placed, Store.Placed, hboard, hcolumn]
    have hexcused : Excused past before ↔ Excused past run := by rw [Excused, Excused, hid, hcolumn]
    rcases hsettling.settled before hmem (hwas hactive) with (hplaced | hexcuse) | hother
    · by_cases hcut : effect = .cutColumn run.columnId
      · exact .inr (.inl (removes_of_allows (hcut ▸ hallowed)))
      · refine .inl (.inl (placed_change h (hsame.mp hplaced) hcut ?_))
        rintro rfl
        cases h
        exact boardId_ne_of_dropBoard hrun rfl
    · exact .inl (.inr (hexcused.mp hexcuse))
    · rw [hid, hcolumn] at hother
      exact .inr hother
  · rcases hadded with rfl | rfl
    · refine .inl (.inl ?_)
      obtain ⟨board, ⟨u, hu, hseen⟩, hboard, hhas⟩ := started_of_allows hallowed hwarranted
      have hthen : u.ColumnsIssued ∧ ColumnsStay u t := by
        rcases List.mem_append.mp hu with hpast | hnow
        · obtain ⟨earlier, hearlier, rfl⟩ := List.mem_map.mp hpast
          obtain ⟨hcolumns, hsince⟩ := hbefore.stay earlier hearlier
          exact ⟨hcolumns, hsince.trans hsettling.stay⟩
        · obtain rfl := List.mem_singleton.mp hnow
          exact ⟨hbefore.columns, hsettling.stay⟩
      have hcolumn : t.hasColumn run.columnId = true := by cases h; assumption
      obtain ⟨b, hb, hbhas⟩ := exists_board_of_hasColumn hcolumn
      obtain ⟨b', hb', hsame, hb'has⟩ := hthen.2.before b hb _ hbhas (hthen.1.below board hseen _ hhas)
      have hon : b.id = run.boardId := hsame.symm.trans ((hthen.1.apart b' hb' board hseen _ hb'has hhas).trans hboard)
      exact placed_change h ⟨b, hb, hon, hbhas⟩ (by simp) (by simp)
    · exact .inr (.inr ⟨imports_of_allows hallowed, hid ▸ hsettling.next⟩)

/-- Every section leaves the runs settled. -/
theorem settled_section (h : Happened) (hwarranted : WarrantedAfter jobs past h) (hbefore : RunsSettled past h.before) :
    RunsSettled (past ++ [h]) (h.after semantics) := by
  obtain ⟨body, outside, s⟩ := h
  have hgrow {t : Store} (hstay : ∀ earlier ∈ past, earlier.before.ColumnsIssued ∧ ColumnsStay earlier.before t)
      (hnow : ColumnsStay s t) : ∀ earlier ∈ past ++ [⟨body, outside, s⟩],
        earlier.before.ColumnsIssued ∧ ColumnsStay earlier.before t := by
    intro earlier hearlier
    rcases List.mem_append.mp hearlier with hmem | hlast
    · exact hstay earlier hmem
    · obtain rfl := List.mem_singleton.mp hlast
      exact ⟨hbefore.columns, hnow⟩
  have hlonger {run : Run} (hexcuse : Excused past run) : Excused (past ++ [⟨body, outside, s⟩]) run := by
    obtain ⟨earlier, hmem, hwhy⟩ := hexcuse
    exact ⟨earlier, List.mem_append_left _ hmem, hwhy⟩
  have hstill : RunsSettled (past ++ [⟨body, outside, s⟩]) s :=
    ⟨hbefore.ids, hbefore.columns, hgrow hbefore.stay (.refl s),
      fun run hrun hactive ↦ (hbefore.settled run hrun hactive).imp_right hlonger⟩
  cases body with
  | read query =>
    change RunsSettled _ (semantics.run (.read query) outside s).2
    rwa [snd_run_read]
  | write update =>
    rcases snd_commit (update.work outside) s with hsame | ⟨a, hrun⟩
    · change RunsSettled _ (commit (update.work outside) s).2
      rwa [hsame]
    · have hend := (chain_update hbefore.ids hrun).keeps (P := Settling past update s)
        (fun effect t t' hallowed hchange ↦ settling_change hbefore hwarranted hallowed hchange)
        ⟨hbefore.ids, hbefore.columns, .refl s, le_rfl, fun run hrun hactive ↦ .inl (hbefore.settled run hrun hactive)⟩
      refine ⟨hend.ids, hend.columns, hgrow (fun earlier hmem ↦ ?_) hend.stay, fun run hrun hactive ↦ ?_⟩
      · exact ⟨(hbefore.stay earlier hmem).1, (hbefore.stay earlier hmem).2.trans hend.stay⟩
      · rcases hend.settled run hrun hactive with (hplaced | hexcuse) | hremoved | ⟨himports, hnew⟩
        · exact .inl hplaced
        · exact .inr (hlonger hexcuse)
        · exact .inr ⟨_, List.mem_append_right _ List.mem_cons_self, .inl hremoved⟩
        · exact .inr ⟨_, List.mem_append_right _ List.mem_cons_self,
            .inr ⟨himports, hnew, hend.ids.runs.below run hrun⟩⟩

end Steps

/-- Whatever the jobs are and in whatever order their sections run: the column in which an active run makes its tasks
is a column of the run's board, unless a request to remove that column has been carried out, or the run came with a
file. -/
theorem active_run_column (jobs : List Job) (schedule : List (ℕ × Outside)) :
    ∀ run ∈ ((serve Store.empty jobs).play semantics schedule).state.runs, run.isActive = true →
      ((serve Store.empty jobs).play semantics schedule).state.Placed run ∨
        Excused ((serve Store.empty jobs).log semantics schedule) run := by
  have hempty : RunsSettled [] Store.empty :=
    ⟨.empty, ⟨fun b hb ↦ (List.not_mem_nil hb).elim, fun b hb ↦ (List.not_mem_nil hb).elim⟩,
      fun h hmem ↦ (List.not_mem_nil hmem).elim, fun run hrun ↦ (List.not_mem_nil hrun).elim⟩
  exact ((Pool.trail_log (serve Store.empty jobs) schedule).keepsAfter
    (eachAfter_warranted Store.empty jobs schedule) (fun _ h hwarranted hbefore ↦
      settled_section h hwarranted hbefore) hempty).settled

def washStarted : Run :=
  (((serve Store.empty washDay).play semantics (turnsFrom 0 4)).state.run 1).get (by decide +kernel)

/-- A run that has just been started makes its tasks in the first column of its board. -/
theorem washStarted_column :
    washStarted.isActive = true ∧
      (((serve Store.empty washDay).play semantics (turnsFrom 0 4)).state.Placed washStarted ∨
        Excused ((serve Store.empty washDay).log semantics (turnsFrom 0 4)) washStarted) :=
  have hrun : washStarted ∈ ((serve Store.empty washDay).play semantics (turnsFrom 0 4)).state.runs :=
    List.mem_of_find?_eq_some (Option.some_get _).symm
  have hactive : washStarted.isActive = true := by decide +kernel
  ⟨hactive, active_run_column washDay (turnsFrom 0 4) washStarted hrun hactive⟩

end Taskologic.Daemon
