import Taskologic.Core.BoardValidity
import Taskologic.Daemon.BoardRights
import Taskologic.Daemon.Identities
import Taskologic.Daemon.ImportedTimes

/-!
# Boards stay valid

A request that changes a board loads it in one section and writes in another, and what is checked in between is the
copy that was loaded. Where the copy is still what is stored (`Update.isCurrent`), an accepted change of a valid board
gives a valid board; adding and reordering need not even that. A file is not checked, so what it brings has to be valid
already. Nothing else a section does to boards can make one invalid (`boards_stay_valid`).
-/

set_option autoImplicit false
set_option relaxedAutoImplicit false

namespace Taskologic.Daemon

open Taskologic.Core Taskologic.Library

/-- Every board is one `Board::validate` accepts. -/
def Store.BoardsValid (s : Store) : Prop := ∀ b ∈ s.boards, b.Valid

/-- If the boards are valid before, they are afterwards. -/
def ValidStays (s s' : Store) : Prop := s.BoardsValid → s'.BoardsValid

instance : Std.Refl ValidStays := ⟨fun _ h ↦ h⟩

instance : IsTrans Store ValidStays := ⟨fun _ _ _ hone htwo h ↦ htwo (hone h)⟩

/-! ### One board -/

section OneBoard

variable {b : Board}

theorem columnFor_setRoles_cons (role : ColumnRole) (column : ColumnId) (roles : List (ColumnRole × ColumnId))
    (b : Board) : setRoles ((role, column) :: roles) b = setRoles roles (setRole role column b) := rfl

/-- A role that is handed over is a column it was handed to, and any other one stays. -/
theorem columnFor_setRoles (roles : List (ColumnRole × ColumnId)) (b : Board) (role : ColumnRole) :
    (role, (setRoles roles b).columnFor role) ∈ roles ∨
      role ∉ roles.map Prod.fst ∧ (setRoles roles b).columnFor role = b.columnFor role := by
  induction roles generalizing b with
  | nil => exact .inr ⟨List.not_mem_nil, rfl⟩
  | cons pair rest ih =>
    obtain ⟨given, column⟩ := pair
    rw [columnFor_setRoles_cons]
    rcases ih (setRole given column b) with hlater | ⟨hnot, hsame⟩
    · exact .inl (List.mem_cons_of_mem _ hlater)
    · by_cases hgiven : role = given
      · subst hgiven
        refine .inl (List.mem_cons.mpr (.inl ?_))
        rw [hsame]
        cases role <;> rfl
      · refine .inr ⟨by simpa [hgiven] using hnot, ?_⟩
        rw [hsame]
        cases given <;> cases role <;> first | rfl | exact absurd rfl hgiven

theorem valid_setRoles (h : b.Valid) {roles : List (ColumnRole × ColumnId)}
    (hroles : ∀ pair ∈ roles, b.hasColumn pair.2 = true) : (setRoles roles b).Valid := by
  have hfor (role : ColumnRole) : (setRoles roles b).hasColumn ((setRoles roles b).columnFor role) = true := by
    rw [setRoles_hasColumn]
    rcases columnFor_setRoles roles b role with hgiven | ⟨-, hsame⟩
    · exact hroles _ hgiven
    · rw [hsame]
      exact h.roles role
  obtain ⟨started, paused, finished, heq⟩ := setRoles_eq roles b
  rw [heq] at hfor ⊢
  exact ⟨h.name, h.columns, hfor, h.archiveDelay, h.purgeDelay, h.owner⟩

end OneBoard

/-! ### The store -/

section Steps

variable {s s' : Store}

theorem validStays_of_boards (h : s'.boards = s.boards) : ValidStays s s' := fun hs b hb ↦ hs b (h ▸ hb)

theorem validStays_of_placing (h : Tx.Keeps Store.placing s s') : ValidStays s s' :=
  validStays_of_boards (congrArg Prod.fst h)

theorem validStays_map {f : Board → Board} (hf : ∀ b ∈ s.boards, b.Valid → (f b).Valid) :
    ValidStays s { s with boards := s.boards.map f } := by
  intro hs b hb
  obtain ⟨before, hbefore, rfl⟩ := List.mem_map.mp hb
  exact hf before hbefore (hs before hbefore)

theorem validStays_modifyBoard {board : BoardId} {f : Board → Board}
    (hf : ∀ b ∈ s.boards, b.id = board → b.Valid → (f b).Valid) : ValidStays s (s.modifyBoard board f) := by
  refine validStays_map fun b hb hvalid ↦ ?_
  split_ifs with hid
  · exact hf b hb hid hvalid
  · exact hvalid

theorem validStays_recordEvent (board : BoardId) (task : Option TaskId) (actor : Option Uid) (kind : EventKind)
    (now : Instant) : Tx.Within ValidStays (recordEvent board task actor kind now) :=
  .write fun _ ↦ validStays_of_boards rfl

theorem validStays_addMember (board : BoardId) (uid : Uid) : Tx.Within ValidStays (addMember board uid) := by
  refine .write fun s ↦ validStays_modifyBoard fun b _ _ hvalid ↦ hvalid.withMembers ?_
  split_ifs
  · exact hvalid.owner
  · exact List.mem_append_left _ hvalid.owner

/-! ### Columns -/

/-- The columns of a board after one is changed, as far as they are told apart. -/
theorem names_modified {columns : List Column} {column : ColumnId} {f : Column → Column} :
    ((sortColumns (columns.map fun c ↦ if c.id = column then f c else c)).map Column.name).Perm
      (columns.map fun c ↦ if c.id = column then (f c).name else c.name) := by
  refine ((List.perm_insertionSort _ _).map Column.name).trans (.of_eq ?_)
  rw [List.map_map]
  refine List.map_congr_left fun c _ ↦ ?_
  rw [Function.comp_apply]
  split_ifs <;> rfl

theorem any_modified {columns : List Column} {column : ColumnId} {f : Column → Column} (hf : ∀ c, (f c).id = c.id)
    (p : ColumnId → Bool) :
    (sortColumns (columns.map fun c ↦ if c.id = column then f c else c)).any (fun c ↦ p c.id) =
      columns.any fun c ↦ p c.id := by
  rw [any_sortColumns, List.any_map]
  congr 1
  funext c
  rw [Function.comp_apply]
  split_ifs
  · rw [hf]
  · rfl

/-- Changing what is neither the name nor the id of a column. -/
theorem validStays_modifyColumn (column : ColumnId) {f : Column → Column} (hid : ∀ c, (f c).id = c.id)
    (hname : ∀ c, (f c).name = c.name) : ValidStays s (modifyColumn column f s) := by
  refine validStays_map fun b _ hvalid ↦ hvalid.withColumns (hvalid.columns.perm ?_) fun role ↦ ?_
  · refine List.Perm.symm (names_modified.trans (.of_eq ?_))
    refine List.map_congr_left fun c _ ↦ ?_
    rw [hname, ite_self]
  · rw [any_modified hid fun id ↦ id == b.columnFor role, ← hasColumn_eq_any]
    exact hvalid.roles role

theorem validStays_reorderColumns (board : Board) (order : List ColumnId) :
    Tx.Within ValidStays (reorderColumns board order) := by
  refine .bind (.check _ _) fun _ ↦ .write fun s ↦ ?_
  generalize order.zipIdx = entries
  induction entries generalizing s with
  | nil => exact fun hs ↦ hs
  | cons entry rest ih =>
    have hone : ValidStays s (modifyColumn entry.1 (fun c ↦ { c with position := entry.2 * 10 }) s) :=
      validStays_modifyColumn entry.1 (fun _ ↦ rfl) fun _ ↦ rfl
    exact IsTrans.trans _ _ _ hone (ih _)

/-- A new column is told apart from those of the board as it was loaded. -/
theorem validStays_addColumn {board : Board} {name : Text} {column : ColumnId} (hids : s.Identified)
    (hboard : board ∈ s.boards) (h : addColumn board name s = .ok (column, s')) : ValidStays s s' := by
  simp only [addColumn, Tx.bind_eq_ok, Tx.lift_eq_ok, demand_eq_ok, Tx.read_eq_ok, Tx.write_eq_ok,
    Tx.pure_eq_ok, Prod.mk.injEq, mapError_eq_ok] at h
  obtain ⟨_, _, ⟨_, hnames, _, rfl⟩, _, _, ⟨_, _, rfl⟩, _, _, ⟨rfl, rfl⟩, _, _, ⟨_, rfl⟩, _, rfl⟩ := h
  refine IsTrans.trans _ _ _ (validStays_modifyBoard fun b hb hid hvalid ↦ ?_) (validStays_of_boards rfl)
  obtain rfl : b = board := List.inj_on_of_nodup_map hids.ids.boards.keyed hb hboard hid
  refine hvalid.withColumns ?_ fun role ↦ ?_
  · refine ((validateColumnNames_eq_ok.mp hnames).of_trim ?_).perm ((List.perm_insertionSort _ _).map Column.name).symm
    simp [trim_trim]
  · rw [any_sortColumns, List.any_append, ← hasColumn_eq_any, hvalid.roles role, Bool.true_or]

/-- A new name is told apart from the others of the board as it was loaded. -/
theorem validStays_renameColumn {board : Board} {column : ColumnId} {name : Text} {r : Unit} (hids : s.Identified)
    (hboard : board ∈ s.boards) (hcolumn : board.hasColumn column = true)
    (h : renameColumn board column name s = .ok (r, s')) : ValidStays s s' := by
  simp only [renameColumn, Tx.bind_eq_ok, Tx.lift_eq_ok, Tx.write_eq_ok, Prod.mk.injEq, mapError_eq_ok] at h
  obtain ⟨_, _, ⟨_, hnames, _, rfl⟩, _, rfl⟩ := h
  refine validStays_map fun b hb hvalid ↦ hvalid.withColumns ?_ fun role ↦ ?_
  · refine ColumnNames.perm ?_ names_modified.symm
    by_cases hhas : b.hasColumn column = true
    · obtain rfl : b = board :=
        List.inj_on_of_nodup_map hids.ids.boards.keyed hb hboard
          (hids.columns.apart b hb board hboard column hhas hcolumn)
      refine (validateColumnNames_eq_ok.mp hnames).of_trim ?_
      rw [List.map_map, List.map_map]
      refine List.map_congr_left fun c _ ↦ ?_
      rw [Function.comp_apply, Function.comp_apply]
      split_ifs
      · exact trim_trim name
      · rfl
    · have hsame : (b.columns.map fun c ↦ if c.id = column then trim name else c.name) = b.columns.map Column.name := by
        refine List.map_congr_left fun c hc ↦ if_neg fun hid ↦ hhas ?_
        rw [hasColumn_eq_any, List.any_eq_true]
        exact ⟨c, hc, by simpa using hid⟩
      rw [hsame]
      exact hvalid.columns
  · refine (any_modified (f := fun c ↦ { c with name := trim name }) (fun _ ↦ rfl)
      fun id ↦ id == b.columnFor role).trans ?_
    rw [← hasColumn_eq_any]
    exact hvalid.roles role

/-- The removed column is one of this board, and its roles go to columns that stay. -/
theorem validStays_removeColumn {outside : Outside} {board : Board} {plan : ColumnRemoval} {r : Unit}
    (hids : s.Identified) (hboard : board ∈ s.boards) (hplan : plan.Planned board plan.removed)
    (h : removeColumn outside board plan s = .ok (r, s')) : ValidStays s s' := by
  obtain ⟨_, s₁, hmoved, h⟩ := Tx.bind_eq_ok.mp h
  simp only [Tx.bind_eq_ok, Tx.write_eq_ok, demand_eq_ok, Prod.mk.injEq] at h
  obtain ⟨_, _, ⟨-, rfl⟩, _, _, ⟨_, -, rfl⟩, _, rfl⟩ := h
  have hsame : s₁.boards = s.boards := by
    refine (?_ : Tx.Within (Tx.Keeps Store.boards) (moveColumnTasks outside.sweep plan.removed plan.moveTasksTo))
      _ _ _ hmoved
    cases plan.moveTasksTo with
    | none => exact .pure _
    | some destination =>
      exact .bind (reads_nextPosition _).within fun _ ↦ .bind (reads_demand _ _).within fun _ ↦ .write fun _ ↦ rfl
  intro hs b hb
  dsimp only [Store.modifyBoard] at hb
  rw [hsame, List.map_map] at hb
  obtain ⟨before, hbefore, rfl⟩ := List.mem_map.mp hb
  have hvalid := hs before hbefore
  rw [Function.comp_apply]
  split_ifs with hid
  · obtain rfl : before = board := List.inj_on_of_nodup_map hids.ids.boards.keyed hbefore hboard hid
    have hroles : (setRoles plan.reassignRoles before).Valid :=
      valid_setRoles hvalid fun pair hpair ↦ (hplan.replacements pair hpair).2
    have hother (role : ColumnRole) : (setRoles plan.reassignRoles before).columnFor role ≠ plan.removed := by
      rcases columnFor_setRoles plan.reassignRoles before role with hgiven | ⟨hnot, hsame⟩
      · exact (hplan.replacements _ hgiven).1
      · rw [hsame]
        intro hheld
        refine hnot ?_
        rw [hplan.roles, Board.rolesOf, List.mem_filter]
        exact ⟨by cases role <;> decide, by simpa using hheld⟩
    have hleft (role : ColumnRole) : ((setRoles plan.reassignRoles before).columns.filter fun c ↦
        c.id != plan.removed).any (fun c ↦ c.id == (setRoles plan.reassignRoles before).columnFor role) = true := by
      have hthere := hroles.roles role
      rw [hasColumn_eq_any, List.any_eq_true] at hthere
      obtain ⟨c, hc, hcid⟩ := hthere
      refine List.any_eq_true.mpr ⟨c, List.mem_filter.mpr ⟨hc, ?_⟩, hcid⟩
      have hsame : c.id = (setRoles plan.reassignRoles before).columnFor role := by simpa using hcid
      simpa [hsame] using hother role
    refine hroles.withColumns (hroles.columns.sublist (List.filter_sublist.map _) ?_) hleft
    intro hnone
    have hsome := hleft .started
    rw [List.map_eq_nil_iff.mp hnone] at hsome
    exact absurd hsome (by simp)
  · have hkeep : (before.columns.filter fun c ↦ c.id != plan.removed) = before.columns := by
      refine List.filter_eq_self.mpr fun c hc ↦ ?_
      simp only [bne_iff_ne, ne_eq]
      intro hremoved
      exact hid (hids.columns.apart before hbefore board hboard plan.removed
        (hremoved ▸ hasColumn_of_mem hc) hplan.hasColumn)
    rw [hkeep]
    exact hvalid

end Steps

/-! ### Requests -/

section Requests

variable {s s' : Store} {outside : Outside}

/-- A board is made with columns of its own, which its roles are among. -/
theorem createBoard_spec {owner : Uid} {req : CreateBoard} {board : Board}
    (h : createBoard outside owner req s = .ok (board, s')) :
    ∃ b, b.Valid ∧ s'.boards = s.boards ++ [b] ∧ s'.tasks = s.tasks ∧ s'.links = s.links ∧ s'.runs = s.runs ∧
      s'.nextTask = s.nextTask ∧ s'.nextRun = s.nextRun := by
  simp only [createBoard, Tx.bind_eq_ok, Tx.lift_eq_ok, Tx.check_eq_ok, Tx.read_eq_ok, Tx.require_eq_ok,
    Tx.write_eq_ok, Prod.mk.injEq, recordEvent_eq_ok, requireBoard_eq_ok, mapError_eq_ok] at h
  obtain ⟨_, _, ⟨_, hname, _, rfl⟩, _, _, ⟨_, hnames, _, rfl⟩, _, _, ⟨harchive, _, rfl⟩, _, _, ⟨hpurge, _, rfl⟩, _, _,
    ⟨hstarted, _, rfl⟩, _, _, ⟨hpaused, _, rfl⟩, _, _, ⟨hfinished, _, rfl⟩, _, _, ⟨rfl, rfl⟩, shortId, _,
    ⟨_, _, rfl, rfl⟩, _, _, ⟨rfl, rfl⟩, _, _, ⟨_, rfl⟩, _, _, ⟨_, rfl⟩, _, _, rfl, rfl⟩ := h
  refine ⟨_, ?_, rfl, rfl, rfl, rfl, rfl, rfl⟩
  have hthere {index : ℕ} (hindex : index < req.columns.length) :
      ((req.columns.zipIdx.map fun pair ↦ (⟨s.nextColumn + pair.2, trim pair.1, pair.2 * 10, false⟩ : Column)).any
        fun c ↦ c.id == s.nextColumn + index) = true := by
    refine List.any_eq_true.mpr ⟨_, List.mem_map.mpr ⟨(req.columns[index], index), ?_, rfl⟩, by simp⟩
    exact List.mem_zipIdx_iff_getElem?.mpr (List.getElem?_eq_getElem hindex)
  refine ⟨(validateName_trim _).trans hname, (validateColumnNames_eq_ok.mp hnames).of_trim ?_, fun role ↦ ?_,
    harchive, hpurge, ?_⟩
  · conv_rhs => rw [← List.zipIdx_map_fst 0 req.columns, List.map_map]
    rw [List.map_map, List.map_map]
    exact List.map_congr_left fun pair _ ↦ trim_trim pair.1
  · refine (hasColumn_eq_any _ _).trans ?_
    cases role with
    | started => exact hthere hstarted
    | paused => exact hthere hpaused
    | finished => exact hthere hfinished
  · rw [List.mem_dedup]
    split_ifs with howner
    · exact howner
    · exact List.mem_cons_self

theorem validStays_createBoard (owner : Uid) (req : CreateBoard) :
    Tx.Within ValidStays (createBoard outside owner req) := by
  intro s board s' h hs b hb
  obtain ⟨new, hvalid, hboards, -⟩ := createBoard_spec h
  rcases List.mem_append.mp (hboards ▸ hb) with hmem | hlast
  · exact hs b hmem
  · exact List.mem_singleton.mp hlast ▸ hvalid

/-- What an update checks. -/
theorem updateBoard_checked {before saved : Board} {req : UpdateBoard}
    (h : updateBoard before req s = .ok (saved, s')) :
    (∀ name, req.name = some name → validateName name = .ok ()) ∧ (∀ v ∈ req.archiveAfterSecs, 0 ≤ v) ∧
      (∀ v ∈ req.purgeDeletedAfterSecs, 0 ≤ v) ∧ ∀ pair ∈ req.roles, before.hasColumn pair.2 = true := by
  unfold updateBoard at h
  cases hname : req.name with
  | none =>
    simp only [hname, Tx.bind_eq_ok, Tx.lift_eq_ok, Tx.check_eq_ok] at h
    obtain ⟨_, _, ⟨harchive, -⟩, _, _, ⟨hpurge, -⟩, _, _, ⟨_, hroles, -⟩, -⟩ := h
    exact ⟨fun _ hnone ↦ absurd hnone (by simp), harchive, hpurge, fun pair hpair ↦
      ensure_eq_ok.mp (checkAll_eq_ok.mp hroles pair hpair)⟩
  | some name =>
    simp only [hname, Tx.bind_eq_ok, Tx.lift_eq_ok, Tx.check_eq_ok, mapError_eq_ok] at h
    obtain ⟨_, _, ⟨_, hvalid, -⟩, _, _, ⟨harchive, -⟩, _, _, ⟨hpurge, -⟩, _, _, ⟨_, hroles, -⟩, -⟩ := h
    exact ⟨fun _ hsome ↦ Option.some.inj hsome ▸ hvalid, harchive, hpurge, fun pair hpair ↦
      ensure_eq_ok.mp (checkAll_eq_ok.mp hroles pair hpair)⟩

/-- What an update checks is enough for the board as it was loaded. -/
theorem validStays_updateBoard {before saved : Board} {req : UpdateBoard} (hids : s.Identified)
    (hbefore : before ∈ s.boards) (h : updateBoard before req s = .ok (saved, s')) : ValidStays s s' := by
  obtain ⟨hname, harchive, hpurge, hroles⟩ := updateBoard_checked h
  obtain rfl := updateBoard_eq_ok h
  refine validStays_modifyBoard fun b hb hid hvalid ↦ ?_
  obtain rfl : b = before := List.inj_on_of_nodup_map hids.ids.boards.keyed hb hbefore hid
  refine valid_setRoles ?_ hroles
  refine ⟨?_, hvalid.columns, fun role ↦ ?_, ?_, ?_, hvalid.owner⟩
  rotate_left
  · cases role with
    | started => exact hvalid.roles .started
    | paused => exact hvalid.roles .paused
    | finished => exact hvalid.roles .finished
  rotate_right
  · cases hset : req.name with
    | none => simpa [UpdateBoard.fields, hset] using hvalid.name
    | some name => simpa [UpdateBoard.fields, hset, validateName_trim] using hname name hset
  · cases hset : req.archiveAfterSecs with
    | none => simpa [UpdateBoard.fields, hset] using hvalid.archiveDelay
    | some secs => simpa [UpdateBoard.fields, hset] using harchive secs hset
  · cases hset : req.purgeDeletedAfterSecs with
    | none => simpa [UpdateBoard.fields, hset] using hvalid.purgeDelay
    | some secs => simpa [UpdateBoard.fields, hset] using hpurge secs hset

theorem validStays_saveBoard {actor : Uid} {before saved : Board} {req : UpdateBoard} (hids : s.Identified)
    (hbefore : before ∈ s.boards) (h : saveBoard outside actor before req s = .ok (saved, s')) : ValidStays s s' := by
  obtain ⟨after, s₁, hupdated, h⟩ := Tx.bind_eq_ok.mp h
  refine IsTrans.trans _ _ _ (validStays_updateBoard hids hbefore hupdated) ?_
  have hrest : Tx.Within ValidStays (do
      recordEvent after.id none actor .boardSettingsChanged outside.now
      requireBoard after.id) :=
    .bind (validStays_recordEvent _ _ _ _ _) fun _ ↦ (reads_requireBoard after.id).within
  refine (?_ : Tx.Within ValidStays _) _ _ _ h
  refine .ite (fun _ ↦ ?_) fun _ ↦ hrest
  exact .bind (.read _) fun _ ↦ .bind (.each fun uid _ ↦ .bind (validStays_addMember _ _) fun _ ↦
    validStays_recordEvent _ _ _ _ _) fun _ ↦ hrest

/-- Anybody but the owner may leave. -/
theorem validStays_leaveBoard {actor uid : Uid} {board : Board} {unassign : Bool} {unassigned : List TaskId}
    (hids : s.Identified) (hboard : board ∈ s.boards) (howner : uid ≠ board.ownerUid)
    (h : leaveBoard outside actor board uid unassign s = .ok (unassigned, s')) : ValidStays s s' := by
  simp only [leaveBoard, Tx.bind_eq_ok, Tx.read_eq_ok, Tx.check_eq_ok, recordEvent_eq_ok, Tx.pure_eq_ok,
    Prod.mk.injEq] at h
  obtain ⟨_, _, ⟨rfl, rfl⟩, _, _, ⟨-, -, rfl⟩, tasks, s₁, hunassigned, _, s₂, hremoved, _, _, ⟨-, rfl⟩, -, rfl⟩ := h
  have hkeeps : Tx.Within (Tx.Keeps Store.boards) (unassignOnBoard board.id uid) :=
    .bind (.read _) fun _ ↦ .bind (.write fun _ ↦ rfl) fun _ ↦ .pure _
  have hsame : s₁.boards = s.boards := hkeeps _ _ _ hunassigned
  obtain ⟨-, rfl⟩ := Prod.mk.inj (Tx.write_eq_ok.mp hremoved)
  refine IsTrans.trans _ _ _ (validStays_of_boards hsame) ?_
  refine IsTrans.trans _ _ _ (validStays_modifyBoard fun b hb hid hvalid ↦ hvalid.withMembers ?_)
    (validStays_of_boards rfl)
  obtain rfl : b = board := List.inj_on_of_nodup_map hids.ids.boards.keyed (hsame ▸ hb) hboard hid
  exact List.mem_filter.mpr ⟨hvalid.owner, by simpa using howner.symm⟩

/-! ### Files -/

/-- A column of a board in a file is one of the columns it brings. -/
theorem placed_of_lookup {board : Board} {base column placed : ColumnId} {others : List (ColumnId × ColumnId)}
    (hhas : board.hasColumn column = true)
    (h : List.lookup column ((board.columns.zipIdx.map fun (c, index) ↦ (c.id, base + index)).reverse ++ others) =
      some placed) :
    ((board.columns.zipIdx.map fun (c, index) ↦ ({ c with id := base + index } : Column)).any
      fun c ↦ c.id == placed) = true := by
  have hown : (List.lookup column
      (board.columns.zipIdx.map fun (c, index) ↦ (c.id, base + index)).reverse).isSome = true := by
    rw [hasColumn_eq_any, List.any_eq_true] at hhas
    obtain ⟨c, hc, hid⟩ := hhas
    obtain ⟨index, hindex, rfl⟩ := List.mem_iff_getElem.mp hc
    refine List.lookup_isSome_iff.mpr ⟨(board.columns[index].id, base + index), List.mem_reverse.mpr
      (List.mem_map.mpr ⟨(board.columns[index], index), ?_, rfl⟩), ?_⟩
    · exact List.mem_zipIdx_iff_getElem?.mpr (List.getElem?_eq_getElem hindex)
    · rw [beq_iff_eq] at hid ⊢
      exact hid.symm
  rw [List.lookup_append] at h
  obtain ⟨found, hfound⟩ := Option.isSome_iff_exists.mp hown
  rw [hfound, Option.some_or, Option.some.injEq] at h
  subst h
  obtain ⟨before, after, hsplit, -⟩ := List.lookup_eq_some_iff.mp hfound
  have hmem : (column, found) ∈ (board.columns.zipIdx.map fun (c, index) ↦ (c.id, base + index)) := by
    rw [← List.mem_reverse, hsplit]
    exact List.mem_append_right _ List.mem_cons_self
  obtain ⟨⟨c, index⟩, hc, heq⟩ := List.mem_map.mp hmem
  obtain ⟨-, rfl⟩ := Prod.mk.inj heq
  exact List.any_eq_true.mpr ⟨_, List.mem_map.mpr ⟨(c, index), hc, rfl⟩, by simp⟩

theorem validStays_importBoard {board : Board} (hboard : board.Valid) (clash : Clash) (maps : Maps) :
    Tx.Within ValidStays (importBoard outside board clash maps) := by
  intro s maps' s' h
  simp only [importBoard, importRole, Tx.bind_eq_ok, Tx.read_eq_ok, Tx.write_eq_ok, Tx.require_eq_ok,
    Tx.pure_eq_ok, demand_eq_ok, Prod.mk.injEq] at h
  obtain ⟨_, _, ⟨-, -, rfl⟩, _, _, ⟨rfl, rfl⟩, _, _, ⟨rfl, rfl⟩, shortId, _, hshort, _, _, ⟨_, hstarted, rfl, rfl⟩,
    _, _, ⟨_, hpaused, rfl, rfl⟩, _, _, ⟨_, hfinished, rfl, rfl⟩, _, _, ⟨-, rfl⟩, rfl, rfl⟩ := h
  obtain rfl := reads_keptShortId _ _ _ _ _ _ _ _ _ hshort
  intro hs b hb
  rcases List.mem_append.mp hb with hmem | hlast
  · exact hs b hmem
  · obtain rfl := List.mem_singleton.mp hlast
    refine ⟨hboard.name, ?_, fun role ↦ ?_, hboard.archiveDelay, hboard.purgeDelay, ?_⟩
    · refine hboard.columns.perm (List.Perm.symm (((List.perm_insertionSort _ _).map Column.name).trans (.of_eq ?_)))
      rw [List.map_map]
      conv_rhs => rw [← List.zipIdx_map_fst 0 board.columns, List.map_map]
      rfl
    · rw [hasColumn_eq_any, any_sortColumns]
      cases role with
      | started => exact placed_of_lookup (hboard.roles .started) hstarted
      | paused => exact placed_of_lookup (hboard.roles .paused) hpaused
      | finished => exact placed_of_lookup (hboard.roles .finished) hfinished
    · rw [List.mem_dedup]
      split_ifs with howner
      · exact howner
      · exact List.mem_cons_self

theorem validStays_importBoardRows {bundle : BoardBundle} (hboard : bundle.board.Valid) (clash : Clash)
    (maps : Maps) : Tx.Within ValidStays (importBoardRows outside clash maps bundle) := by
  have hbeside {α : Type} {work : Work α} (h : Tx.Within (Tx.Keeps Store.placing) work) : Tx.Within ValidStays work :=
    h.mono fun _ _ hsame ↦ validStays_of_placing hsame
  refine .bind (.read _) fun board ↦ .bind (validStays_importBoard hboard clash maps) fun maps ↦
    .bind (.each fun template _ ↦ hbeside (keeps_importTemplate template)) fun _ ↦
      .bind (hbeside (keeps_linkTemplates _)) fun _ ↦
        .bind (.each fun program _ ↦ hbeside (keeps_importProgram program)) fun _ ↦ .bind ?_ fun _ ↦ .pure _
  intro s pairs s' h
  obtain ⟨rows, hplacing, -⟩ := importTasks_eq_ok h
  exact validStays_of_boards (congrArg Prod.fst hplacing)

theorem within_eachWith_of_mem {α : Type} {R : Store → Store → Prop} [Std.Refl R] [IsTrans Store R]
    {f : Maps → α → Work Maps} {entries : List α} (hf : ∀ maps, ∀ a ∈ entries, Tx.Within R (f maps a)) (maps : Maps) :
    Tx.Within R (eachWith f maps entries) := by
  induction entries generalizing maps with
  | nil => exact .pure _
  | cons a rest ih =>
    exact .bind (hf maps a List.mem_cons_self) fun maps ↦
      ih (fun maps b hb ↦ hf maps b (List.mem_cons_of_mem _ hb)) maps

theorem validStays_importEverything {file : ImportFile} (hfile : ∀ bundle ∈ file.boards, bundle.board.Valid)
    {wholeServer : Bool} {clash : Clash} {r : Unit}
    (h : importEverything outside file wholeServer clash s = .ok (r, s')) : ValidStays s s' := by
  obtain ⟨_, s₁, hpeople, h⟩ := Tx.bind_eq_ok.mp h
  obtain ⟨maps₁, s₂, hrows, h⟩ := Tx.bind_eq_ok.mp h
  obtain ⟨maps₂, s₃, hlinks, h⟩ := Tx.bind_eq_ok.mp h
  obtain ⟨done, s₄, hevents, h⟩ := Tx.bind_eq_ok.mp h
  obtain ⟨-, rfl⟩ := Prod.mk.inj (Tx.pure_eq_ok.mp h)
  have hadded : ValidStays s₁ s₂ :=
    within_eachWith_of_mem (fun maps bundle hbundle ↦ validStays_importBoardRows (hfile bundle hbundle) clash maps)
      _ _ _ _ hrows
  exact IsTrans.trans _ _ _ (validStays_of_placing (keeps_importPeople _ _ _ _ _ hpeople))
    (IsTrans.trans _ _ _ hadded (IsTrans.trans _ _ _ (validStays_of_placing (importLinks_each hlinks).1)
      (validStays_of_boards (importEvents_each hevents).1)))

end Requests

/-! ### Sections -/

/-- The update is made with the board as it still is, and what a file brings is valid. -/
def Update.isCurrent (s : Store) {α : Type} : Update α → Bool
  | .saveBoard _ before _ => s.boards.contains before
  | .appendColumn _ board _ | .dropColumn _ board _ | .leaveBoard _ board _ _ => s.boards.contains board
  | .nameColumn _ board column _ => s.boards.contains board && board.hasColumn column
  | .importEverything file _ _ => file.boards.all fun bundle ↦ bundle.board.validate.isOk
  | _ => true

def Section.isCurrent (s : Store) {α : Type} : Section α → Bool
  | .read _ => true
  | .write update => update.isCurrent s

def Effect.aboutBoards : Effect → Bool
  | .addBoard | .editBoards | .setRoles _ _ | .addColumn _ | .cutColumn _ | .dropBoard _ => true
  | _ => false

def Update.aboutBoards {α : Type} : Update α → Bool
  | .createBoard _ _ | .saveBoard _ _ _ | .removeBoard _ _ | .appendColumn _ _ _ | .nameColumn _ _ _ _
  | .reorderColumns _ _ | .setColumnSort _ _ | .dropColumn _ _ _ | .joinBoard _ _ _ | .leaveBoard _ _ _ _
  | .importEverything _ _ _ => true
  | _ => false

section Sections

variable {α : Type} {update : Update α} {effect : Effect} {s s' : Store} {outside : Outside}

theorem boards_of_change (h : Change effect s s') (hother : effect.aboutBoards = false) : s'.boards = s.boards := by
  cases h with
  | aside hbeside => exact hbeside.boards
  | addBoard | editBoards | setRoles | addColumn | cutColumn | dropBoard => cases hother
  | _ => rfl

theorem aboutBoards_of_allows (h : update.Allows s effect) (hother : update.aboutBoards = false) :
    effect.aboutBoards = false := by
  cases effect with
  | addBoard | editBoards | setRoles | addColumn | cutColumn | dropBoard =>
    cases update with
    | moveTaskBy actor board task destination position overrideDeps answer =>
      obtain ⟨run, event, hreacts⟩ := h
      exact hreacts.elim
    | giveAnswer board task answer | deleteTask actor board task =>
      obtain ⟨run, event, hreacts, -⟩ := h
      exact hreacts.elim
    | startProgram actor board program column startAt fanOut =>
      obtain ⟨run, -, hreacts⟩ := h
      exact hreacts.elim
    | _ => first | exact h.elim | cases hother
  | _ => rfl

theorem validStays_update {a : α} {jobs : List Job} {t : Recorded Store} (hids : s.Identified)
    (hcurrent : update.isCurrent s = true) (hwarranted : update.Warranted jobs t)
    (h : update.work outside s = .ok (a, s')) : ValidStays s s' := by
  cases update with
  | createBoard owner req => exact validStays_createBoard owner req _ _ _ h
  | saveBoard actor before req => exact validStays_saveBoard hids (List.contains_iff_mem.mp hcurrent) h
  | removeBoard actor board =>
    refine (?_ : Tx.Within ValidStays _) _ _ _ h
    exact .bind (validStays_recordEvent _ _ _ _ _) fun _ ↦ .bind (reads_demand _ _).within fun _ ↦
      .write fun s hs b hb ↦ hs b (List.mem_of_mem_filter hb)
  | appendColumn actor board name =>
    obtain ⟨_, s₁, hadded, hnoted⟩ := Tx.bind_eq_ok.mp h
    exact IsTrans.trans _ _ _ (validStays_addColumn hids (List.contains_iff_mem.mp hcurrent) hadded)
      (validStays_recordEvent _ _ _ _ _ _ _ _ hnoted)
  | nameColumn actor board column name =>
    obtain ⟨_, s₁, hnamed, hnoted⟩ := Tx.bind_eq_ok.mp h
    obtain ⟨hboard, hcolumn⟩ := (Bool.and_eq_true _ _).mp hcurrent
    exact IsTrans.trans _ _ _ (validStays_renameColumn hids (List.contains_iff_mem.mp hboard) hcolumn hnamed)
      (validStays_recordEvent _ _ _ _ _ _ _ _ hnoted)
  | reorderColumns board order => exact validStays_reorderColumns board order _ _ _ h
  | setColumnSort column sortByDue =>
    obtain ⟨-, rfl⟩ := Prod.mk.inj (Tx.write_eq_ok.mp h)
    exact validStays_modifyColumn column (fun _ ↦ rfl) fun _ ↦ rfl
  | dropColumn actor board plan =>
    obtain ⟨_, s₁, hremoved, hnoted⟩ := Tx.bind_eq_ok.mp h
    exact IsTrans.trans _ _ _ (validStays_removeColumn hids (List.contains_iff_mem.mp hcurrent) hwarranted.2.1 hremoved)
      (validStays_recordEvent _ _ _ _ _ _ _ _ hnoted)
  | joinBoard actor board uid =>
    exact (Tx.Within.bind (R := ValidStays) (reads_checkKnown _ _).within fun _ ↦
      .bind (validStays_addMember _ _) fun _ ↦ validStays_recordEvent _ _ _ _ _) _ _ _ h
  | leaveBoard actor board uid unassign =>
    exact validStays_leaveBoard hids (List.contains_iff_mem.mp hcurrent) hwarranted.2.1 h
  | importEverything file wholeServer clash =>
    refine validStays_importEverything (fun bundle hbundle ↦ Board.validate_eq_ok.mp ?_) h
    have hok := List.all_eq_true.mp hcurrent bundle hbundle
    cases hvalid : bundle.board.validate with
    | ok u => rfl
    | error reason =>
      rw [hvalid] at hok
      cases hok
  | _ =>
    exact validStays_of_boards ((chain_update hids.ids h).keeps (P := fun t ↦ t.boards = s.boards)
      (fun _ _ _ hallowed hchange hsame ↦ (boards_of_change hchange (aboutBoards_of_allows hallowed rfl)).trans hsame)
      rfl)

end Sections

/-- Whatever the jobs are and in whatever order their sections run: as long as each change of a board is made with the
board as it still is, and files bring valid boards, every board that is stored at any time is valid. -/
theorem boards_stay_valid (jobs : List Job) (schedule : List (ℕ × Outside))
    (hcurrent : ∀ h ∈ (serve Store.empty jobs).log semantics schedule, h.body.isCurrent h.before = true) :
    ∀ b ∈ ((serve Store.empty jobs).play semantics schedule).state.boards, b.validate = .ok () := by
  have hempty : Store.empty.Identified ∧ Store.empty.BoardsValid :=
    ⟨.empty, fun b hb ↦ (List.not_mem_nil hb).elim⟩
  have hgoes : Pool.EachAfter (fun past h ↦ WarrantedAfter jobs past h ∧ h.body.isCurrent h.before = true)
      ((serve Store.empty jobs).log semantics schedule) := fun past h rest hlog ↦
    ⟨eachAfter_warranted Store.empty jobs schedule past h rest hlog,
      hcurrent h (hlog ▸ List.mem_append_right _ List.mem_cons_self)⟩
  have hend := (Pool.trail_log (serve Store.empty jobs) schedule).keepsAfter
    (J := fun _ s ↦ s.Identified ∧ s.BoardsValid) hgoes (fun past h hgood hbefore ↦ ?_) hempty
  · exact fun b hb ↦ Board.validate_eq_ok.mpr (hend.2 b hb)
  · obtain ⟨body, outside, s⟩ := h
    refine ⟨(sameIds_section hbefore.1 body outside).2, ?_⟩
    cases body with
    | read query =>
      change (semantics.run (.read query) outside s).2.BoardsValid
      rw [snd_run_read]
      exact hbefore.2
    | write update =>
      rcases snd_commit (update.work outside) s with hsame | ⟨a, hrun⟩
      · change (commit (update.work outside) s).2.BoardsValid
        rw [hsame]
        exact hbefore.2
      · exact validStays_update hbefore.1 hgood.2 hgood.1 hrun hbefore.2

/-- A board is made, gets a fifth column, and the column another name. -/
def fifthColumn : List Job :=
  washDay.take 2 ++ [.request ⟨1, false⟩ (.addColumn 1 (text "Later")),
    .request ⟨1, false⟩ (.renameColumn 5 (text "Some day"))]

/-- Nobody else changes the board in between. -/
theorem fifthColumn_valid :
    ∃ b, ((serve Store.empty fifthColumn).play semantics (turnsFrom 0 4)).state.boards = [b] ∧
      b.columns.length = 5 ∧ b.validate = .ok () := by
  have hvalid := boards_stay_valid fifthColumn (turnsFrom 0 4) (by decide +kernel)
  have hcounts : (((serve Store.empty fifthColumn).play semantics (turnsFrom 0 4)).state.boards.map
      fun b ↦ b.columns.length) = [5] := by decide +kernel
  obtain ⟨b, hboards, hcount⟩ := List.map_eq_singleton_iff.mp hcounts
  exact ⟨b, hboards, hcount, hvalid b (hboards ▸ List.mem_singleton_self b)⟩

end Taskologic.Daemon
