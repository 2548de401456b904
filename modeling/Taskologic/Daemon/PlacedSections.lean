import Taskologic.Daemon.Positions
import Taskologic.Daemon.TaskRules

/-!
# Every section puts tasks into columns step by step

Whatever the daemon does under the lock is a course of placements (`tasksWithin_placings`): the tasks that are made,
moved, restored, brought by a file or shifted to another column, and between them what leaves the places of live tasks
alone. So what holds along courses of placements holds of the daemon, whatever is asked of it and in whatever order the
sections run (`placings_of_reaches`), and of the position behind the last task (`appends_of_reaches`).
-/

set_option autoImplicit false
set_option relaxedAutoImplicit false

namespace Taskologic.Daemon

open Taskologic.Core Taskologic.Library

/-- One store becomes another by placements. -/
def Placings (s s' : Store) : Prop := ∃ past, Course PlacedBy s past s'

instance : Std.Refl Placings := ⟨fun _ ↦ ⟨[], .start⟩⟩

instance : IsTrans Store Placings where
  trans _ _ _ hone htwo := by
    obtain ⟨past, hpast⟩ := hone
    obtain ⟨later, hlater⟩ := htwo
    exact ⟨later ++ past, hpast.append hlater⟩

section Placings

variable {s s' : Store}

theorem PlacedBy.placings {placement : Placement} (h : PlacedBy placement s s') : Placings s s' :=
  ⟨[(s, placement)], Course.start.next h⟩

/-- The tasks are as they were. -/
theorem placings_same (h : s'.tasks = s.tasks) : Placings s s' :=
  (PlacedBy.aside fun row hrow hlive ↦ ⟨row, h ▸ hrow, hlive, rfl, rfl⟩).placings

/-- Whatever is done to tasks is done by placements. -/
theorem tasksWithin_placings : TasksWithin Placings where
  beside _ _ hsame := placings_same (congrArg TaskTables.tasks hsame)
  print _ _ := placings_same rfl
  drop _ _ := (PlacedBy.aside fun row hrow hlive ↦ ⟨row, List.mem_of_mem_filter hrow, hlive, rfl, rfl⟩).placings
  rows _ _ hf := (PlacedBy.aside fun row hrow hlive ↦ by
    obtain ⟨before, hbefore, rfl⟩ := List.mem_map.mp hrow
    exact ⟨before, hbefore, (hf before).place hlive⟩).placings
  create _ _ _ _ _ _ _ _ _ h := (PlacedBy.create h).placings
  move _ _ _ _ _ _ _ h := (PlacedBy.move h).placings
  restore _ _ _ _ _ _ h := (PlacedBy.restore h).placings
  bring _ _ _ _ _ _ _ h := (PlacedBy.bring h).placings
  shift _ _ _ _ _ _ h := (PlacedBy.shift h).placings

/-- From a store to every one the daemon gets to, whatever it is asked and in whatever order the sections run, there
is a course of placements. -/
theorem placings_of_reaches {server later : Server Response}
    (h : Pool.Reaches semantics Pool.anySection server later) : Placings server.state later.state :=
  h.invariant (P := Placings server.state) (fun _ body input s _ hs ↦
    IsTrans.trans _ _ _ hs (tasksWithin_placings.semantics_run body input s)) (refl_of _ _)

/-- What the daemon gets to from a fresh install, in a course all of whose steps have room, has a position behind the
last task of every column. -/
theorem appends_of_reaches {jobs : List Job} {later : Server Response}
    (h : Pool.Reaches semantics Pool.anySection (serve Store.empty jobs) later) :
    ∃ past, Course PlacedBy Store.empty past later.state ∧
      ((∀ entry ∈ past, entry.1.HasRoomFor entry.2) → later.state.Appends) := by
  obtain ⟨past, hpast⟩ := placings_of_reaches h
  exact ⟨past, hpast, fun hroom ↦ appends_iff.mpr ((clear_along_iff hpast).mpr hroom).2⟩

end Placings

end Taskologic.Daemon
