import Taskologic.Daemon.RunColumns

/-!
# An id means one thing for good

Ids of boards, columns, tasks and runs are given out in order and never again. What is stored under an id was stored
under it ever since the id was given out, on the same board, and a run has the root and the column it began with
(`ids_never_reused`). What is gone does not come back under its id, whatever is asked of the daemon.
-/

set_option autoImplicit false
set_option relaxedAutoImplicit false

namespace Taskologic.Daemon

open Taskologic.Core Taskologic.Library

/-- What is stored under an old id was stored under it before. -/
structure SameIds (s s' : Store) : Prop where
  columns : ColumnsStay s s'
  boards : ∀ b ∈ s'.boards, b.id < s.nextBoard → ∃ b' ∈ s.boards, b'.id = b.id
  tasks : ∀ row ∈ s'.tasks, row.id < s.nextTask →
    ∃ before ∈ s.tasks, before.id = row.id ∧ before.boardId = row.boardId
  runs : ∀ run ∈ s'.runs, run.id < s.nextRun → ∃ before ∈ s.runs, before.id = run.id ∧
    before.rootTask = run.rootTask ∧ before.boardId = run.boardId ∧ before.columnId = run.columnId ∧
    (run.isActive = true → before.isActive = true)
  nextBoard : s.nextBoard ≤ s'.nextBoard
  nextTask : s.nextTask ≤ s'.nextTask
  nextRun : s.nextRun ≤ s'.nextRun

section SameIds

variable {effect : Effect} {s s' s'' : Store}

theorem SameIds.refl (s : Store) : SameIds s s where
  columns := .refl s
  boards b hb _ := ⟨b, hb, rfl⟩
  tasks row hrow _ := ⟨row, hrow, rfl, rfl⟩
  runs run hrun _ := ⟨run, hrun, rfl, rfl, rfl, rfl, fun hactive ↦ hactive⟩
  nextBoard := le_rfl
  nextTask := le_rfl
  nextRun := le_rfl

theorem SameIds.trans (hone : SameIds s s') (htwo : SameIds s' s'') : SameIds s s'' where
  columns := hone.columns.trans htwo.columns
  boards b hb hold := by
    obtain ⟨b', hb', hid⟩ := htwo.boards b hb (hold.trans_le hone.nextBoard)
    obtain ⟨b'', hb'', hid'⟩ := hone.boards b' hb' (hid ▸ hold)
    exact ⟨b'', hb'', hid'.trans hid⟩
  tasks row hrow hold := by
    obtain ⟨between, hbetween, hid, hboard⟩ := htwo.tasks row hrow (hold.trans_le hone.nextTask)
    obtain ⟨before, hbefore, hid', hboard'⟩ := hone.tasks between hbetween (hid ▸ hold)
    exact ⟨before, hbefore, hid'.trans hid, hboard'.trans hboard⟩
  runs run hrun hold := by
    obtain ⟨between, hbetween, hid, hroot, hboard, hcolumn, hwas⟩ := htwo.runs run hrun (hold.trans_le hone.nextRun)
    obtain ⟨before, hbefore, hid', hroot', hboard', hcolumn', hwas'⟩ := hone.runs between hbetween (hid ▸ hold)
    exact ⟨before, hbefore, hid'.trans hid, hroot'.trans hroot, hboard'.trans hboard, hcolumn'.trans hcolumn,
      fun hactive ↦ hwas' (hwas hactive)⟩
  nextBoard := hone.nextBoard.trans htwo.nextBoard
  nextTask := hone.nextTask.trans htwo.nextTask
  nextRun := hone.nextRun.trans htwo.nextRun

theorem nextBoard_le (h : Change effect s s') : s.nextBoard ≤ s'.nextBoard := by
  cases h with
  | aside hbeside => exact hbeside.nextBoard.ge
  | addBoard board width hid => exact Nat.le_succ _
  | _ => exact le_rfl

/-- A board that is there after a change was there before, or it is new. -/
theorem board_before (h : Change effect s s') {b : Board} (hb : b ∈ s'.boards) :
    (∃ b' ∈ s.boards, b'.id = b.id) ∨ b.id = s.nextBoard := by
  have hold (hmem : b ∈ s.boards) : ∃ b' ∈ s.boards, b'.id = b.id := ⟨b, hmem, rfl⟩
  cases h with
  | aside hbeside => exact .inl (hold (hbeside.boards ▸ hb))
  | addBoard board width hid =>
    rcases List.mem_append.mp hb with hmem | hlast
    · exact .inl (hold hmem)
    · exact .inr (List.mem_singleton.mp hlast ▸ hid)
  | editBoards f hid =>
    obtain ⟨before, hbefore, rfl⟩ := List.mem_map.mp hb
    exact .inl ⟨before, hbefore, (hid before).symm⟩
  | setRoles board roles =>
    obtain ⟨before, hbefore, rfl⟩ := List.mem_map.mp hb
    refine .inl ⟨before, hbefore, ?_⟩
    split_ifs
    · exact (setRoles_id roles before).symm
    · rfl
  | addColumn board f hid =>
    obtain ⟨before, hbefore, rfl⟩ := List.mem_map.mp hb
    refine .inl ⟨before, hbefore, ?_⟩
    split_ifs
    · exact (hid before).symm
    · rfl
  | cutColumn column =>
    obtain ⟨before, hbefore, rfl⟩ := List.mem_map.mp hb
    exact .inl ⟨before, hbefore, rfl⟩
  | dropBoard board => exact .inl (hold (List.mem_of_mem_filter hb))
  | _ => exact .inl (hold hb)

theorem sameIds_change (h : Change effect s s') (hissued : s.ColumnsIssued) : SameIds s s' where
  columns := (columnsStay_change h hissued).1
  boards b hb hold := (board_before h hb).resolve_right fun hnew ↦ absurd hold (hnew ▸ Nat.lt_irrefl _)
  tasks row hrow hold := by
    rcases task_before h hrow with ⟨before, hbefore, hid, hboard, -⟩ | ⟨hnew, -⟩
    · exact ⟨before, hbefore, hid, hboard⟩
    · exact absurd hold (hnew ▸ Nat.lt_irrefl _)
  runs run hrun hold := (run_before h hrun).resolve_right fun hnew ↦ absurd hold (hnew.1 ▸ Nat.lt_irrefl _)
  nextBoard := nextBoard_le h
  nextTask := (next_le_of_change h).2
  nextRun := (next_le_of_change h).1

end SameIds

/-- Ids are in order, and each is given out once. -/
structure Store.Identified (s : Store) : Prop where
  ids : s.Numbered
  columns : s.ColumnsIssued

theorem Store.Identified.empty : Store.empty.Identified :=
  ⟨.empty, fun b hb ↦ (List.not_mem_nil hb).elim, fun b hb ↦ (List.not_mem_nil hb).elim⟩

/-- Every section leaves ids with what they were given to. -/
theorem sameIds_section {s : Store} (h : s.Identified) {α : Type} (body : Section α) (outside : Outside) :
    SameIds s (semantics.run body outside s).2 ∧ (semantics.run body outside s).2.Identified := by
  cases body with
  | read query => rw [snd_run_read]; exact ⟨.refl s, h⟩
  | write update =>
    rcases snd_commit (update.work outside) s with hsame | ⟨a, hrun⟩
    · change SameIds s (commit (update.work outside) s).2 ∧ (commit (update.work outside) s).2.Identified
      rw [hsame]
      exact ⟨.refl s, h⟩
    · exact (chain_update h.ids hrun).keeps (P := fun t ↦ SameIds s t ∧ t.Identified)
        (fun _ t t' _ hchange hbefore ↦ ⟨hbefore.1.trans (sameIds_change hchange hbefore.2.columns),
          hbefore.2.ids.change hchange, (columnsStay_change hchange hbefore.2.columns).2⟩) ⟨.refl s, h⟩

/-- Whatever the jobs are and in whatever order their sections run: no two boards, tasks or runs have one id, and no
two boards a column. What is stored later under an id that was given out earlier was stored under it then, a task on
the same board, a run with the same root and the same column, and a run that is active later was active then. -/
theorem ids_never_reused (jobs : List Job) (earlier later : List (ℕ × Outside)) :
    let server := (serve Store.empty jobs).play semantics earlier
    server.state.Identified ∧ SameIds server.state (server.play semantics later).state := by
  intro server
  have hstart : server.state.Identified := (Pool.reaches_play (serve Store.empty jobs) earlier).invariant
    (C := Pool.anySection) (fun _ body outside _ _ hs ↦ (sameIds_section hs body outside).2) .empty
  refine ⟨hstart, ?_⟩
  exact ((Pool.reaches_play server later).invariant (C := Pool.anySection)
    (P := fun t ↦ SameIds server.state t ∧ t.Identified) (fun _ body outside _ _ hs ↦
      have hnext := sameIds_section hs.2 body outside
      ⟨hs.1.trans hnext.1, hnext.2⟩) ⟨.refl _, hstart⟩).1

end Taskologic.Daemon
