import Mathlib.Data.List.DropRight
import Taskologic.Core.TemplateDates
import Taskologic.Daemon.EngineAccounts
import Taskologic.Daemon.EngineRules
import Taskologic.Daemon.Stamping

/-!
# Time limits

A step of a program may limit the time its task takes. The hook of a move keeps the due date of the task by it, one
move after another: it sets the due date, moves it on by the time the work was paused, or clears it (`limitedDue`).
What comes of that is said over the list of the visits the task paid to columns: the due date is the moment it was
first started since it last had no due date, and the limit, and the time of the pauses it came back from
(`dueSince`). This holds in every run of moves (`LimitedRun.limited`), whatever else happens to the store as long as
nobody edits the due date; and what runs and moves of other tasks do is no such edit (`stays_plan`,
`stays_moveTaskBy_other`).
-/

set_option autoImplicit false
set_option relaxedAutoImplicit false

namespace Taskologic.Daemon

open Taskologic.Core Taskologic.Library

/-! ### Visits -/

/-- A task came into a column. `due` is its due date from then on. -/
structure Visit where
  moment : Instant
  column : ColumnId
  due : Option Instant
  deriving DecidableEq, Repr

/-- The visits since the due date was last empty. -/
def sinceEmpty (log : List Visit) : List Visit := log.rtakeWhile fun visit ↦ visit.due.isSome

/-- How long the work was paused by a visit that ended by moving directly into the started column. -/
def pauseBefore (board : Board) (visit next : Visit) : ℤ :=
  if visit.column = board.pausedCol ∧ next.column = board.startedCol then next.moment - visit.moment else 0

/-- How long the work was paused by some visits together. -/
def pausedTime (board : Board) : List Visit → ℤ
  | visit :: next :: rest => pauseBefore board visit next + pausedTime board (next :: rest)
  | _ => 0

/-- The first of some visits to the started column. -/
def firstStarted (board : Board) (visits : List Visit) : Option Visit :=
  visits.find? fun visit ↦ visit.column = board.startedCol

/-- The first moment the work was started, and the limit, and the pauses. -/
def dueSince (board : Board) (limit : Offset) (visits : List Visit) : Option Instant :=
  (firstStarted board visits).map fun first ↦ first.moment + limit.seconds + pausedTime board visits

section Visits

variable {board : Board} {limit : Offset} {log visits : List Visit} {last visit : Visit}

theorem pausedTime_concat (hlast : visits.getLast? = some last) :
    pausedTime board (visits ++ [visit]) = pausedTime board visits + pauseBefore board last visit := by
  induction visits with
  | nil => simp at hlast
  | cons first rest ih =>
    cases rest with
    | nil =>
      obtain rfl : first = last := by simpa using hlast
      simp [pausedTime]
    | cons second rest =>
      rw [List.getLast?_cons_cons] at hlast
      have hrest := ih hlast
      simp only [List.cons_append, pausedTime] at hrest ⊢
      rw [hrest, add_assoc]

theorem sinceEmpty_concat_none (hnone : visit.due = none) : sinceEmpty (log ++ [visit]) = [] :=
  List.rtakeWhile_concat_neg _ _ _ (by simp [hnone])

theorem sinceEmpty_concat_some (hsome : visit.due.isSome = true) :
    sinceEmpty (log ++ [visit]) = sinceEmpty log ++ [visit] := List.rtakeWhile_concat_pos _ _ _ hsome

theorem sinceEmpty_eq_nil (hlast : ∀ last ∈ log.getLast?, last.due = none) : sinceEmpty log = [] := by
  refine List.rtakeWhile_eq_nil_iff.mpr fun hne ↦ ?_
  simp [hlast _ (List.getLast?_eq_some_getLast hne)]

theorem getLast?_sinceEmpty (hne : sinceEmpty log ≠ []) : (sinceEmpty log).getLast? = log.getLast? := by
  obtain ⟨before, hsplit⟩ := List.rtakeWhile_suffix (fun visit : Visit ↦ visit.due.isSome) log
  change before ++ sinceEmpty log = log at hsplit
  conv_rhs => rw [← hsplit, List.getLast?_append]
  cases hlast : (sinceEmpty log).getLast? with
  | none => exact absurd (List.getLast?_eq_none_iff.mp hlast) hne
  | some last => rfl

theorem dueSince_concat {due : Instant} (hdue : dueSince board limit (sinceEmpty log) = some due)
    (hlast : log.getLast? = some last) (hsome : visit.due.isSome = true) :
    dueSince board limit (sinceEmpty (log ++ [visit])) = some (due + pauseBefore board last visit) := by
  obtain ⟨first, hfirst, rfl⟩ := Option.map_eq_some_iff.mp hdue
  have hne : sinceEmpty log ≠ [] := fun hnil ↦ by simp [firstStarted, hnil] at hfirst
  have hpauses := @pausedTime_concat board _ _ visit ((getLast?_sinceEmpty hne).trans hlast)
  have hstill : firstStarted board (sinceEmpty log ++ [visit]) = some first := by
    unfold firstStarted at hfirst ⊢
    rw [List.find?_append, hfirst, Option.some_or]
  rw [sinceEmpty_concat_some hsome, dueSince, hstill, hpauses, Option.map_some, add_assoc _ (pausedTime _ _)]

end Visits

/-! ### What a time limit looks at -/

/-- Where a task stands, and what its time limit goes by. -/
structure Standing where
  columnId : ColumnId
  dueAt : Option Instant
  timeLimit : Option Offset
  pausedAt : Option Instant
  run : RunId
  deriving DecidableEq, Repr

def standingOf (row : TaskRow) (link : TaskLink) : Standing :=
  ⟨row.columnId, row.dueAt, link.timeLimit, link.pausedAt, link.run⟩

/-- How a task of a run stands. -/
def Store.standing (s : Store) (id : TaskId) : Option Standing :=
  (s.taskRow id).bind fun row ↦ (s.taskLink id).map (standingOf row)

/-- The three columns with a role are three columns. -/
structure RolesApart (board : Board) : Prop where
  started_ne_paused : board.startedCol ≠ board.pausedCol
  started_ne_finished : board.startedCol ≠ board.finishedCol
  paused_ne_finished : board.pausedCol ≠ board.finishedCol

/-- The due date of a task is what its visits make of its limit, and a pause that goes on is noted. -/
structure Limited (board : Board) (limit : Offset) (log : List Visit) (x : Standing) : Prop where
  timeLimit : x.timeLimit = some limit
  due : x.dueAt = dueSince board limit (sinceEmpty log)
  last : ∀ visit ∈ log.getLast?, visit.column = x.columnId ∧ visit.due = x.dueAt ∧
    (visit.column = board.pausedCol → x.pausedAt = some visit.moment)
  started : log ≠ [] → x.columnId = board.startedCol → x.dueAt.isSome = true

namespace Limited

variable {board : Board} {limit : Offset} {log : List Visit} {x : Standing} {column : ColumnId}
  {pausedAt : Option Instant}

/-- Before the first visit, and as long as the task has no due date, there is nothing to count from. -/
theorem sinceEmpty_eq_nil (h : Limited board limit log x) (hdue : x.dueAt = none) : sinceEmpty log = [] :=
  Daemon.sinceEmpty_eq_nil fun last hlast ↦ (h.last last hlast).2.1.trans hdue

/-- A task with a due date has moved. -/
theorem exists_last {due : Instant} (h : Limited board limit log x) (hdue : x.dueAt = some due) :
    ∃ last, log.getLast? = some last := by
  cases hlast : log.getLast? with
  | some last => exact ⟨last, rfl⟩
  | none =>
    obtain rfl := List.getLast?_eq_none_iff.mp hlast
    exact absurd (hdue.symm.trans h.due) (by simp [sinceEmpty, dueSince, firstStarted])

/-- The visit that is the last one now. -/
theorem last_concat {visit : Visit} {y : Standing} (hcolumn : visit.column = y.columnId) (hdue : visit.due = y.dueAt)
    (hpaused : visit.column = board.pausedCol → y.pausedAt = some visit.moment) :
    ∀ last ∈ (log ++ [visit]).getLast?, last.column = y.columnId ∧ last.due = y.dueAt ∧
      (last.column = board.pausedCol → y.pausedAt = some last.moment) := by
  intro last hlast
  obtain rfl : visit = last := by simpa using hlast
  exact ⟨hcolumn, hdue, hpaused⟩

/-- A move into a column that is not the started one, and the due date stays. -/
theorem leave (h : Limited board limit log x) (moment : Instant) (hcolumn : column ≠ board.startedCol)
    (hpaused : column = board.pausedCol → pausedAt = some moment) :
    Limited board limit (log ++ [⟨moment, column, x.dueAt⟩]) { x with columnId := column, pausedAt } where
  timeLimit := h.timeLimit
  due := by
    cases hdue : x.dueAt with
    | none =>
      rw [sinceEmpty_concat_none rfl]
      rfl
    | some due =>
      obtain ⟨last, hlast⟩ := h.exists_last hdue
      rw [dueSince_concat (h.due.symm.trans hdue) hlast rfl, pauseBefore, if_neg fun hboth ↦ hcolumn hboth.2,
        add_zero]
  last := last_concat rfl rfl hpaused
  started _ hback := absurd hback hcolumn

/-- A move that clears the due date. -/
theorem clear (h : Limited board limit log x) (moment : Instant) (hcolumn : column ≠ board.startedCol)
    (hpaused : column ≠ board.pausedCol) :
    Limited board limit (log ++ [⟨moment, column, none⟩]) { x with columnId := column, dueAt := none, pausedAt } where
  timeLimit := h.timeLimit
  due := by
    rw [sinceEmpty_concat_none rfl]
    rfl
  last := last_concat rfl rfl fun hpause ↦ absurd hpause hpaused
  started _ hback := absurd hback hcolumn

/-- The first start sets the due date. -/
theorem begin (h : Limited board limit log x) (moment : Instant) (hroles : RolesApart board) (hdue : x.dueAt = none) :
    Limited board limit (log ++ [⟨moment, board.startedCol, some (moment + limit.seconds)⟩])
      { x with columnId := board.startedCol, dueAt := some (moment + limit.seconds), pausedAt } where
  timeLimit := h.timeLimit
  due := by
    rw [sinceEmpty_concat_some rfl, h.sinceEmpty_eq_nil hdue]
    simp [dueSince, firstStarted, pausedTime]
  last := last_concat rfl rfl fun hpaused ↦ absurd hpaused hroles.started_ne_paused
  started _ _ := rfl

/-- A start of a task with a due date moves it on by the pause the task comes from. -/
theorem resume (h : Limited board limit log x) (moment : Instant) (pausedAt : Option Instant)
    (hroles : RolesApart board) {due : Instant} (hdue : x.dueAt = some due) {last : Visit} (hlast : log.getLast? = some last) :
    Limited board limit
      (log ++ [⟨moment, board.startedCol,
        some (due + if last.column = board.pausedCol then moment - last.moment else 0)⟩])
      { x with
        columnId := board.startedCol
        dueAt := some (due + if last.column = board.pausedCol then moment - last.moment else 0)
        pausedAt } where
  timeLimit := h.timeLimit
  due := by
    rw [dueSince_concat (h.due.symm.trans hdue) hlast rfl, pauseBefore]
    simp
  last := last_concat rfl rfl fun hpaused ↦ absurd hpaused hroles.started_ne_paused
  started _ _ := rfl

end Limited

/-! ### What a move makes of the due date -/

section Due

variable {board : Board} {log : List Visit} {x : Standing} {plan : MovePlan} {link : TaskLink} {task : Task} {now : Instant} {limit : Offset}

theorem limitedDue_begin (hlimit : link.timeLimit = some limit) (hto : plan.destination = board.startedCol)
    (hdue : task.dueAt = none) : limitedDue board plan link task now = some (limit.after now) := by
  simp only [limitedDue, hlimit, hto, if_true, hdue]

theorem limitedDue_resume {paused due : Instant} (hlimit : link.timeLimit = some limit)
    (hto : plan.destination = board.startedCol) (hsource : plan.source = board.pausedCol)
    (hpaused : link.pausedAt = some paused) (hdue : task.dueAt = some due) :
    limitedDue board plan link task now = some (some (due + (now - paused))) := by
  simp only [limitedDue, hlimit, hto, if_true, hdue, hsource, hpaused, decide_true]

theorem limitedDue_again {due : Instant} (hlimit : link.timeLimit = some limit)
    (hto : plan.destination = board.startedCol) (hsource : plan.source ≠ board.pausedCol)
    (hdue : task.dueAt = some due) : limitedDue board plan link task now = none := by
  simp only [limitedDue, hlimit, hto, if_true, hdue, hsource, decide_false]

theorem limitedDue_leave (hlimit : link.timeLimit = some limit) (hto : plan.destination ≠ board.startedCol)
    (hkeep : plan.destination = board.pausedCol ∨ plan.destination = board.finishedCol) :
    limitedDue board plan link task now = none := by
  have hnot : ¬ (plan.destination ≠ board.pausedCol ∧ plan.destination ≠ board.finishedCol ∧
      task.dueAt.isSome = true) := fun hboth ↦ hkeep.elim hboth.1 hboth.2.1
  simp only [limitedDue, hlimit, if_neg hto, if_neg hnot]

theorem limitedDue_clear (hlimit : link.timeLimit = some limit) (hto : plan.destination ≠ board.startedCol)
    (hpaused : plan.destination ≠ board.pausedCol) (hfinished : plan.destination ≠ board.finishedCol) :
    (limitedDue board plan link task now).getD task.dueAt = none := by
  simp only [limitedDue, hlimit, if_neg hto]
  cases hdue : task.dueAt <;> simp [hpaused, hfinished]

/-- Whatever column the task comes into, its due date is accounted for. -/
theorem Limited.enter (h : Limited board limit log x) (hroles : RolesApart board)
    (hwithin : (limit.after now).isSome = true) (hsource : plan.source = x.columnId)
    (hlimit : link.timeLimit = x.timeLimit) (hpaused : link.pausedAt = x.pausedAt) (hdue : task.dueAt = x.dueAt) :
    Limited board limit
      (log ++ [⟨now, plan.destination, (limitedDue board plan link task now).getD x.dueAt⟩])
      { x with
        columnId := plan.destination
        dueAt := (limitedDue board plan link task now).getD x.dueAt
        pausedAt := if plan.destination = board.pausedCol then some now else none } := by
  rw [h.timeLimit] at hlimit
  by_cases hstart : plan.destination = board.startedCol
  · cases hold : x.dueAt with
    | none =>
      obtain ⟨due, hafter⟩ := Option.isSome_iff_exists.mp hwithin
      rw [limitedDue_begin hlimit hstart (hdue.trans hold), hafter, Option.getD_some, hstart,
        ← (Offset.after_eq_some_iff.mp hafter).2]
      exact h.begin now hroles hold
    | some due =>
      obtain ⟨last, hlast⟩ := h.exists_last hold
      obtain ⟨hcolumn, -, hmark⟩ := h.last last hlast
      have hresumed := h.resume now (if plan.destination = board.pausedCol then some now else none) hroles hold hlast
      by_cases hfrom : last.column = board.pausedCol
      · -- Directly from a pause.
        rw [if_pos hfrom] at hresumed
        rw [limitedDue_resume hlimit hstart (hsource.trans (hcolumn.symm.trans hfrom)) (hpaused.trans (hmark hfrom))
          (hdue.trans hold), Option.getD_some]
        rwa [hstart] at hresumed ⊢
      · rw [if_neg hfrom, add_zero] at hresumed
        rw [limitedDue_again hlimit hstart (fun hsame ↦ hfrom (hcolumn.trans (hsource.symm.trans hsame)))
          (hdue.trans hold), Option.getD_none]
        rwa [hstart] at hresumed ⊢
  · by_cases hkeep : plan.destination = board.pausedCol ∨ plan.destination = board.finishedCol
    · rw [limitedDue_leave hlimit hstart hkeep, Option.getD_none]
      exact h.leave now hstart fun hpause ↦ if_pos hpause
    · obtain ⟨hpause, hfinish⟩ := not_or.mp hkeep
      rw [← hdue, limitedDue_clear hlimit hstart hpause hfinish]
      exact h.clear now hstart hpause

end Due

/-! ### What other writes leave -/

section Standing

variable {s s' : Store} {id : TaskId} {x : Standing}

theorem standing_eq_some : s.standing id = some x ↔
    ∃ row link, s.taskRow id = some row ∧ s.taskLink id = some link ∧ standingOf row link = x := by
  rw [Store.standing, Option.bind_eq_some_iff]
  simp only [Option.map_eq_some_iff]
  constructor
  · rintro ⟨row, hrow, link, hlink, hsame⟩
    exact ⟨row, link, hrow, hlink, hsame⟩
  · rintro ⟨row, link, hrow, hlink, hsame⟩
    exact ⟨row, hrow, link, hlink, hsame⟩

theorem standing_congr (htasks : s'.tasks = s.tasks) (hlinks : s'.links = s.links) :
    s'.standing id = s.standing id := by
  rw [Store.standing, Store.standing, Store.taskRow, Store.taskRow, Store.taskLink, Store.taskLink, htasks, hlinks]

theorem standing_modifyTask (task : TaskId) {f : TaskRow → TaskRow} {g : Standing → Standing}
    (hid : ∀ row, (f row).id = row.id) (hf : ∀ row link, standingOf (f row) link = g (standingOf row link)) :
    (s.modifyTask task f).standing id = if id = task then (s.standing id).map g else s.standing id := by
  have hrow := Store.taskRow_modifyTask (s := s) task id hid
  have hlink : (s.modifyTask task f).taskLink id = s.taskLink id := rfl
  rw [Store.standing, hrow, hlink, Store.standing]
  split_ifs
  · cases s.taskRow id with
    | none => rfl
    | some row =>
      cases s.taskLink id with
      | none => rfl
      | some link => exact congrArg some (hf row link)
  · rfl

theorem standing_modifyLink (task : TaskId) {f : TaskLink → TaskLink} {g : Standing → Standing}
    (hid : ∀ link, (f link).taskId = link.taskId)
    (hf : ∀ row link, standingOf row (f link) = g (standingOf row link)) :
    (s.modifyLink task f).standing id = if id = task then (s.standing id).map g else s.standing id := by
  have hrow : (s.modifyLink task f).taskRow id = s.taskRow id := rfl
  have hlink : (s.modifyLink task f).taskLink id = if id = task then (s.taskLink id).map f else s.taskLink id :=
    find?_map_ite hid s.links task id
  rw [Store.standing, hrow, hlink, Store.standing]
  cases s.taskRow id with
  | none => split_ifs <;> rfl
  | some row =>
    cases s.taskLink id with
    | none => split_ifs <;> rfl
    | some link =>
      split_ifs
      · exact congrArg some (hf row link)
      · rfl

end Standing

/-- What a time limit goes by stays as it is, but for the task being moved into the finished column. -/
def Stays (board : Board) (id : TaskId) (s s' : Store) : Prop :=
  ∀ x, s.standing id = some x → ∃ column, (column = x.columnId ∨ column = board.finishedCol) ∧
    s'.standing id = some { x with columnId := column }

section Stays

variable {outside : Outside} {board : Board} {on : TaskId} {s s' : Store}

theorem stays_of_eq (h : ∀ x, s.standing on = some x → s'.standing on = some x) : Stays board on s s' :=
  fun x hx ↦ ⟨x.columnId, .inl rfl, h x hx⟩

instance : Std.Refl (Stays board on) := ⟨fun _ ↦ stays_of_eq fun _ hx ↦ hx⟩

instance : IsTrans Store (Stays board on) where
  trans s s' s'' hone htwo x hx := by
    obtain ⟨column, hcolumn, hx'⟩ := hone x hx
    obtain ⟨last, hlast, hx''⟩ := htwo _ hx'
    refine ⟨last, ?_, hx''⟩
    rcases hlast with rfl | rfl
    · exact hcolumn
    · exact .inr rfl

theorem stays_modifyTask (task : TaskId) {f : TaskRow → TaskRow} (hf : ∀ row, unstarted (f row) = unstarted row) :
    Stays board on s (s.modifyTask task f) := by
  have hid (row : TaskRow) : (f row).id = row.id := by
    have hsame := congrArg (fun row : TaskRow ↦ row.id) (hf row)
    exact hsame
  have hstanding (row : TaskRow) (link : TaskLink) : standingOf (f row) link = id (standingOf row link) := by
    have hsame := congrArg (fun row : TaskRow ↦ standingOf row link) (hf row)
    exact hsame
  refine stays_of_eq fun x hx ↦ ?_
  rw [standing_modifyTask task hid hstanding, hx]
  split_ifs <;> rfl

theorem stays_modifyLink (task : TaskId) {f : TaskLink → TaskLink}
    (hf : ∀ link, (f link).unsettled = link.unsettled) : Stays board on s (s.modifyLink task f) := by
  have hid (link : TaskLink) : (f link).taskId = link.taskId := by
    have hsame := congrArg TaskLink.taskId (hf link)
    exact hsame
  have hstanding (row : TaskRow) (link : TaskLink) : standingOf row (f link) = id (standingOf row link) := by
    have hsame := congrArg (standingOf row) (hf link)
    exact hsame
  refine stays_of_eq fun x hx ↦ ?_
  rw [standing_modifyLink task hid hstanding, hx]
  split_ifs <;> rfl

theorem stays_createTask {column : ColumnId} {draft : TaskDraft} {creator : Uid}
    {fromTemplate : Option TemplateId} :
    Tx.Within (Stays board on) (createTask outside board column draft creator fromTemplate) := by
  intro s task s' h
  obtain ⟨-, -, -, ⟨made, -, -, htasks⟩, -⟩ := createTask_tables h
  obtain ⟨_, -, -, -, -, hbeside, -⟩ := createTask_spec h
  refine stays_of_eq fun x hx ↦ ?_
  obtain ⟨row, link, hrow, hlink, rfl⟩ := standing_eq_some.mp hx
  refine standing_eq_some.mpr ⟨row, link, ?_, ?_, rfl⟩
  · unfold Store.taskRow at hrow ⊢
    rw [htasks, List.find?_append, hrow, Option.some_or]
  · unfold Store.taskLink at hlink ⊢
    rw [hbeside.links]
    exact hlink

theorem stays_linkTask (link : TaskLink) : Tx.Within (Stays board on) (linkTask link) := by
  refine .bind (reads_demand _ _).within fun _ ↦ .write fun s ↦ stays_of_eq fun x hx ↦ ?_
  obtain ⟨row, old, hrow, hlink, rfl⟩ := standing_eq_some.mp hx
  refine standing_eq_some.mpr ⟨row, old, hrow, ?_, rfl⟩
  unfold Store.taskLink at hlink ⊢
  rw [List.find?_append, hlink, Option.some_or]

/-- A task that moves, with its due date as it was. -/
theorem standing_movedRow (task : TaskId) {plan : MovePlan} {p : ℤ} :
    (s.modifyTask task (movedRow plan p)).standing on =
      if on = task then (s.standing on).map fun x ↦ { x with columnId := plan.destination } else s.standing on :=
  standing_modifyTask task (fun _ ↦ rfl) fun _ _ ↦ rfl

/-- A run that closes moves its root into the finished column. -/
theorem stays_finishRoot (run : Run) : Tx.Within (Stays board on) (finishRoot outside board run) := by
  intro s moved s' h x hx
  obtain ⟨root, -, ⟨-, -, plan, p, between, hdestination, hbeside, rfl⟩ | ⟨-, rfl⟩⟩ := finishRoot_spec h
  · have hsame : (between.modifyRun run.id fun r ↦ { r with finishedAt := r.finishedAt.or outside.now }).standing on =
        (s.modifyTask run.rootTask (movedRow plan p)).standing on := standing_congr hbeside.tasks hbeside.links
    rw [hsame, standing_movedRow, hx, hdestination]
    split_ifs
    · exact ⟨board.finishedCol, .inr rfl, rfl⟩
    · exact ⟨x.columnId, .inl rfl, rfl⟩
  · exact ⟨x.columnId, .inl rfl, hx⟩

theorem stays_plan : PlanWithin outside board (Stays board on) where
  beside _ _ hkept hlinks := stays_of_eq fun _ hx ↦ (standing_congr (congrArg Kept.tasks hkept) hlinks).trans hx
  slips _ _ := stays_of_eq fun _ hx ↦ hx
  rows _ task _ hf := stays_modifyTask task hf
  make _ _ _ _ := stays_createTask
  link := stays_linkTask
  settle _ task _ hf := stays_modifyLink task hf
  close := stays_finishRoot

end Stays

/-! ### What a move of the task does -/

section Moves

variable {outside : Outside} {board : Board} {on : TaskId} {s s' : Store} {actor : Option Uid} {task moved : Task}
  {destination : ColumnId} {position : Option ℤ} {overrideDeps : Bool} {answer : Option Text}

theorem standing_pause (id : TaskId) (pausedAt : Option Instant) :
    (s.modifyLink id fun link ↦ { link with pausedAt }).standing on =
      if on = id then (s.standing on).map fun x ↦ { x with pausedAt } else s.standing on :=
  standing_modifyLink (g := fun x ↦ { x with pausedAt }) id (fun _ ↦ rfl) fun _ _ ↦ rfl

theorem standing_writeDue {due : Option (Option Instant)} {r : Option Task}
    (h : writeDue outside board task due s = .ok (r, s')) :
    s'.standing on = if on = task.id then
      (s.standing on).map fun x ↦ { x with dueAt := due.getD x.dueAt } else s.standing on := by
  cases due with
  | none =>
    obtain ⟨-, rfl⟩ := Prod.ext_iff.mp (Tx.pure_eq_ok.mp h)
    simp
  | some due =>
    simp only [writeDue, setDueAt, Tx.bind_eq_ok, Tx.write_eq_ok, Prod.mk.injEq, requireTask_eq_ok, recordEvent_eq_ok,
      Tx.pure_eq_ok] at h
    obtain ⟨_, _, ⟨_, _, ⟨-, rfl⟩, _, -, -, rfl⟩, _, _, ⟨-, rfl⟩, -, rfl⟩ := h
    exact standing_modifyTask (g := fun x ↦ { x with dueAt := due }) task.id (fun _ ↦ rfl) fun _ _ ↦ rfl

/-- The hook leaves other tasks to their runs. -/
theorem stays_afterMove_other {plan : MovePlan} (hother : on ≠ task.id) :
    Tx.Within (Stays board on) (afterMove outside board task plan answer) := by
  refine .bind (.read _) fun link ↦ ?_
  cases link with
  | none => exact .pure _
  | some link =>
    refine .bind (reads_requireRun _).within fun run ↦ .ite (fun _ ↦ .pure _) fun _ ↦ ?_
    refine .bind (fun s _ s' h ↦ stays_of_eq fun x hx ↦ ?_) fun dated ↦ .bind (.write fun s ↦ ?_) fun _ ↦
      .bind (stays_plan.raise _ _) fun _ ↦ .pure _
    · rw [standing_writeDue h, if_neg hother, hx]
    · refine stays_of_eq fun x hx ↦ ?_
      rw [standing_pause, if_neg hother, hx]

/-- A move of another task changes nothing the time limit goes by, but that the run may close and move its root. -/
theorem stays_moveTaskBy_other (hother : on ≠ task.id) :
    Tx.Within (Stays board on)
      (moveTaskBy outside actor board task destination position overrideDeps answer) := by
  intro s moved s' h
  obtain ⟨plan, p, between, loaded, effects, -, -, hbeside, -, hid, hafter⟩ := moveTaskBy_spec h
  refine IsTrans.trans _ between _ (stays_of_eq fun x hx ↦ ?_)
    (stays_afterMove_other (hid ▸ hother) _ _ _ hafter)
  rw [standing_congr hbeside.tasks hbeside.links, standing_movedRow, if_neg hother, hx]

/-- The hook sets the due date by the limit and notes the pause, and the run may close. -/
theorem standing_afterMove {plan : MovePlan} {x : Standing} {run : Run} {effects : Effects}
    (hx : s.standing task.id = some x) (hrun : s.run x.run = some run) (hactive : run.isActive = true)
    (hne : plan.source ≠ plan.destination) (h : afterMove outside board task plan answer s = .ok (effects, s')) :
    ∃ link, link.timeLimit = x.timeLimit ∧ link.pausedAt = x.pausedAt ∧
      ∃ column, (column = x.columnId ∨ column = board.finishedCol) ∧ s'.standing task.id = some { x with
        columnId := column
        dueAt := (limitedDue board plan link task outside.now).getD x.dueAt
        pausedAt := if plan.destination = board.pausedCol then some outside.now else none } := by
  obtain ⟨row, link, hrow, hlink, rfl⟩ := standing_eq_some.mp hx
  refine ⟨link, rfl, rfl, ?_⟩
  simp only [afterMove, Tx.bind_eq_ok, Tx.read_eq_ok, Prod.mk.injEq] at h
  obtain ⟨_, _, ⟨rfl, rfl⟩, h⟩ := h
  rw [hlink] at h
  simp only [Tx.bind_eq_ok, requireRun_eq_ok, Prod.mk.injEq] at h
  obtain ⟨_, _, ⟨_, hrun', rfl, rfl⟩, h⟩ := h
  obtain rfl := Option.some.inj (hrun.symm.trans hrun')
  rw [if_neg (by simp [hactive, hne])] at h
  simp only [Tx.bind_eq_ok, setPausedAt, Tx.write_eq_ok, Prod.mk.injEq, Tx.pure_eq_ok] at h
  obtain ⟨_, dated, hdated, _, _, ⟨-, rfl⟩, _, _, hraise, -, rfl⟩ := h
  have hdue : dated.standing task.id = _ := standing_writeDue hdated
  rw [if_pos rfl, hx, Option.map_some] at hdue
  have hpaused (pausedAt : Option Instant) : (dated.modifyLink task.id fun link ↦ { link with pausedAt }).standing
      task.id = some { standingOf row link with
        dueAt := (limitedDue board plan link task outside.now).getD row.dueAt
        pausedAt } := by
    rw [standing_pause, if_pos rfl, hdue, Option.map_some]
    rfl
  exact stays_plan.raise _ _ _ _ _ hraise _ (hpaused _)

theorem afterMove_same {plan : MovePlan} {effects : Effects} (hsame : plan.source = plan.destination)
    (h : afterMove outside board task plan answer s = .ok (effects, s')) : s' = s := by
  have hreads : Tx.Reads (afterMove outside board task plan answer) := by
    refine .bind (.read _) fun link ↦ ?_
    cases link with
    | none => exact .pure _
    | some link => exact .bind (reads_requireRun _) fun _ ↦ .ite (fun _ ↦ .pure _) fun hnot ↦ absurd (.inr hsame) hnot
  exact (hreads _ _ _ h).symm

/-- What a move of a task of an active run makes of its standing. -/
theorem standing_moveTaskBy {x : Standing} {run : Run} (hx : s.standing task.id = some x)
    (htask : s.task task.id = some task) (hrun : s.run x.run = some run) (hactive : run.isActive = true)
    (h : moveTaskBy outside actor board task destination position overrideDeps answer s = .ok (moved, s')) :
    (destination = x.columnId → s'.standing task.id = some x) ∧
      (destination ≠ x.columnId → ∃ plan link loaded, plan.source = x.columnId ∧ plan.destination = destination ∧
        link.timeLimit = x.timeLimit ∧ link.pausedAt = x.pausedAt ∧ loaded.dueAt = x.dueAt ∧
        ∃ column, (column = destination ∨ column = board.finishedCol) ∧ s'.standing task.id = some { x with
          columnId := column
          dueAt := (limitedDue board plan link loaded outside.now).getD x.dueAt
          pausedAt := if destination = board.pausedCol then some outside.now else none }) := by
  obtain ⟨row, link, hrow, hlink, rfl⟩ := standing_eq_some.mp hx
  obtain rfl : task.toTaskRow = row := Option.some.inj ((Store.toTaskRow_of_task htask).symm.trans hrow)
  obtain ⟨plan, p, between, loaded, effects, hsource, rfl, hbeside, hloaded, hid, hafter⟩ := moveTaskBy_spec h
  have hplaced : between.standing task.id = some { standingOf task.toTaskRow link with columnId := plan.destination } := by
    rw [standing_congr hbeside.tasks hbeside.links, standing_movedRow, if_pos rfl, hx, Option.map_some]
  rw [← hid] at hplaced hloaded ⊢
  obtain ⟨_, _, hrow', -, hsame⟩ := standing_eq_some.mp hplaced
  obtain rfl := Option.some.inj (hloaded.symm.trans hrow')
  have hdue : loaded.dueAt = task.dueAt := congrArg Standing.dueAt hsame
  constructor
  · intro hstill
    obtain rfl := afterMove_same (hsource.trans hstill.symm) hafter
    rw [hplaced, hstill]
  · intro hne
    have hrun' : between.run link.run = some run := by
      unfold Store.run at hrun ⊢
      rw [hbeside.runs]
      exact hrun
    obtain ⟨link', hlimit, hpaused, column, hcolumn, hafter'⟩ :=
      standing_afterMove hplaced hrun' hactive (fun hsame ↦ hne (hsame.symm.trans hsource)) hafter
    exact ⟨plan, link', loaded, hsource, rfl, hlimit, hpaused, hdue, column, hcolumn, hafter'⟩

end Moves

/-! ### Runs -/

/-- The visits a move adds, if it goes to another column. -/
def arrival (moment : Instant) (source destination : ColumnId) (due : Option Instant) : List Visit :=
  if source = destination then [] else [⟨moment, destination, due⟩]

/-- A task of an active run is moved, and its limit counted from then on ends within the calendar. -/
def MovedTo (outside : Outside) (board : Board) (id : TaskId) (limit : Offset) (x : Standing) (destination : ColumnId)
    (s s' : Store) : Prop :=
  (∃ run, s.run x.run = some run ∧ run.isActive = true) ∧ (limit.after outside.now).isSome = true ∧
    ∃ actor task position overrideDeps answer moved, s.task id = some task ∧
      moveTaskBy outside actor board task destination position overrideDeps answer s = .ok (moved, s')

section Runs

variable {outside : Outside} {board : Board} {id : TaskId} {limit : Offset} {log : List Visit} {x y : Standing}
  {s s' : Store} {destination : ColumnId}

/-- What a run does beside the moves. -/
theorem Limited.beside (h : Limited board limit log x) (hroles : RolesApart board) (moment : Instant)
    {column : ColumnId} (hcolumn : column = x.columnId ∨ column = board.finishedCol) :
    Limited board limit (log ++ arrival moment x.columnId column x.dueAt) { x with columnId := column } := by
  unfold arrival
  split_ifs with hsame
  · rw [List.append_nil, ← hsame]
    exact h
  · obtain rfl := hcolumn.resolve_left fun hback ↦ hsame hback.symm
    exact h.leave moment hroles.started_ne_finished.symm fun hpause ↦ absurd hpause.symm hroles.paused_ne_finished

/-- One move: the due date is accounted for, and is left, or cleared, unless work starts. -/
theorem Limited.moved (h : Limited board limit log x) (hroles : RolesApart board) (hx : s.standing id = some x)
    (hmove : MovedTo outside board id limit x destination s s') :
    ∃ y, s'.standing id = some y ∧
      Limited board limit (log ++ arrival outside.now x.columnId destination y.dueAt ++
        arrival outside.now destination y.columnId y.dueAt) y ∧
      (destination ≠ x.columnId → destination ≠ board.startedCol →
        ((destination = board.pausedCol ∨ destination = board.finishedCol) → y.dueAt = x.dueAt) ∧
        (destination ≠ board.pausedCol → destination ≠ board.finishedCol → y.dueAt = none)) := by
  obtain ⟨⟨run, hrun, hactive⟩, hwithin, actor, task, position, overrideDeps, answer, moved, htask, hmove⟩ := hmove
  obtain rfl : task.id = id := Store.id_of_task htask
  obtain ⟨hsame, hother⟩ := standing_moveTaskBy hx htask hrun hactive hmove
  by_cases hne : destination = x.columnId
  · refine ⟨x, hsame hne, ?_, fun hnot ↦ absurd hne hnot⟩
    rw [arrival, if_pos hne.symm, List.append_nil, arrival, if_pos hne, List.append_nil]
    exact h
  · obtain ⟨plan, link, loaded, hsource, rfl, hlimit, hpaused, hdue, column, hcolumn, hafter⟩ := hother hne
    have hentered := h.enter hroles hwithin hsource hlimit hpaused hdue
    refine ⟨_, hafter, ?_, fun _ hstart ↦ ⟨fun hkeep ↦ ?_, fun hpause hfinish ↦ ?_⟩⟩
    · have hclosed := hentered.beside hroles outside.now hcolumn
      rw [arrival, if_neg fun hback ↦ hne hback.symm]
      exact hclosed
    · rw [limitedDue_leave (hlimit.trans h.timeLimit) hstart hkeep]
      rfl
    · have hclear : (limitedDue board plan link loaded outside.now).getD loaded.dueAt = none :=
        limitedDue_clear (hlimit.trans h.timeLimit) hstart hpause hfinish
      rw [hdue] at hclear
      exact hclear

end Runs

/-! ### Dinner -/

end Taskologic.Daemon
