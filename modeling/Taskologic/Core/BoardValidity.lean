import Taskologic.Core.Board

/-!
# Valid boards

What `Board.validate` asks of a board, as facts (`validate_eq_ok`). Column names are told apart trimmed and lowercase
(`columnKey`), so neither the order of the columns nor the blanks around a name matter.
-/

set_option autoImplicit false
set_option relaxedAutoImplicit false

namespace Taskologic.Core

open Library

/-! ### Column names -/

/-- What two column names are told apart by. -/
def columnKey (name : Text) : Text := toLowercase (trim name)

/-- The names columns of one board may have. -/
structure ColumnNames (names : List Text) : Prop where
  some : names ≠ []
  visible : ∀ name ∈ names, trim name ≠ []
  apart : (names.map columnKey).Nodup

theorem checkColumnNames_eq_ok {seen names : List Text} :
    checkColumnNames seen names = .ok () ↔
      (∀ name ∈ names, trim name ≠ []) ∧ (∀ name ∈ names, columnKey name ∉ seen) ∧ (names.map columnKey).Nodup := by
  induction names generalizing seen with
  | nil => simp [checkColumnNames]
  | cons name rest ih =>
    simp only [checkColumnNames, bind_unit_eq_ok, ensure_eq_ok, ih, List.mem_append, List.mem_singleton, not_or,
      List.forall_mem_cons, List.map_cons, List.nodup_cons, List.mem_map, not_exists, not_and]
    constructor
    · rintro ⟨hname, hnew, hvisible, hseen, hapart⟩
      exact ⟨⟨hname, hvisible⟩, ⟨hnew, fun other hother ↦ (hseen other hother).1⟩,
        fun other hother ↦ (hseen other hother).2, hapart⟩
    · rintro ⟨⟨hname, hvisible⟩, ⟨hnew, hseen⟩, hfirst, hapart⟩
      exact ⟨hname, hnew, hvisible, fun other hother ↦ ⟨hseen other hother, hfirst other hother⟩, hapart⟩

theorem validateColumnNames_eq_ok {names : List Text} : validateColumnNames names = .ok () ↔ ColumnNames names := by
  simp only [validateColumnNames, bind_unit_eq_ok, ensure_eq_ok, checkColumnNames_eq_ok]
  constructor
  · rintro ⟨hsome, hvisible, -, hapart⟩
    exact ⟨hsome, hvisible, hapart⟩
  · intro h
    exact ⟨h.some, h.visible, fun _ _ ↦ List.not_mem_nil, h.apart⟩

namespace ColumnNames

variable {names other : List Text}

theorem perm (h : ColumnNames names) (hperm : names.Perm other) : ColumnNames other where
  some hnil := h.some (List.Perm.eq_nil (hnil ▸ hperm))
  visible name hname := h.visible name (hperm.mem_iff.mpr hname)
  apart := (hperm.map columnKey).nodup_iff.mp h.apart

/-- Some of the columns are enough, as long as one is left. -/
theorem sublist (h : ColumnNames names) (hsub : other.Sublist names) (hsome : other ≠ []) : ColumnNames other where
  some := hsome
  visible name hname := h.visible name (hsub.subset hname)
  apart := (hsub.map columnKey).nodup h.apart

/-- Blanks around a name do not matter. -/
theorem of_trim (h : ColumnNames names) (hsame : other.map trim = names.map trim) : ColumnNames other where
  some hnil := h.some (List.map_eq_nil_iff.mp (hsame.symm.trans (by rw [hnil, List.map_nil])))
  visible name hname := by
    have hmem : trim name ∈ names.map trim := hsame ▸ List.mem_map_of_mem hname
    obtain ⟨before, hbefore, heq⟩ := List.mem_map.mp hmem
    rw [← heq]
    exact h.visible before hbefore
  apart := by
    have hkeys (l : List Text) : l.map columnKey = (l.map trim).map toLowercase := by
      rw [List.map_map]
      rfl
    rw [hkeys, hsame, ← hkeys]
    exact h.apart

end ColumnNames

/-! ### Boards -/

namespace Board

/-- What is asked of a board. -/
structure Valid (board : Board) : Prop where
  name : validateName board.name = .ok ()
  columns : ColumnNames (board.columns.map Column.name)
  roles : ∀ role, board.hasColumn (board.columnFor role) = true
  archiveDelay : 0 ≤ board.archiveAfterSecs
  purgeDelay : 0 ≤ board.purgeDeletedAfterSecs
  owner : board.ownerUid ∈ board.members

theorem validate_eq_ok {board : Board} : board.validate = .ok () ↔ board.Valid := by
  simp only [validate, bind_unit_eq_ok, ensure_eq_ok, checkAll_eq_ok, validateColumnNames_eq_ok]
  constructor
  · rintro ⟨hname, hcolumns, hroles, harchive, hpurge, howner⟩
    exact ⟨hname, hcolumns, fun role ↦ hroles role (by cases role <;> decide), harchive, hpurge, howner⟩
  · exact fun h ↦ ⟨h.name, h.columns, fun role _ ↦ h.roles role, h.archiveDelay, h.purgeDelay, h.owner⟩

namespace Valid

variable {board : Board}

theorem withMembers (h : board.Valid) {members : List Uid} (howner : board.ownerUid ∈ members) :
    Valid { board with members } :=
  { h with owner := howner }

/-- Other columns will do, if they are told apart and hold the roles. -/
theorem withColumns (h : board.Valid) {columns : List Column} (hnames : ColumnNames (columns.map Column.name))
    (hroles : ∀ role, (columns.any fun c ↦ c.id == board.columnFor role) = true) :
    Valid { board with columns } where
  name := h.name
  columns := hnames
  roles role := by
    have hthere := hroles role
    rw [List.any_eq_true] at hthere
    obtain ⟨c, hc, hid⟩ := hthere
    rw [hasColumn, column, List.find?_isSome]
    exact ⟨c, hc, by cases role <;> exact hid⟩
  archiveDelay := h.archiveDelay
  purgeDelay := h.purgeDelay
  owner := h.owner

end Valid

end Board

theorem validateName_trim (name : Text) : validateName (trim name) = validateName name := by
  unfold validateName
  rw [trim_trim]

end Taskologic.Core
