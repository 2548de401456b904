import Taskologic.Daemon.BoardRights
import Taskologic.Daemon.EngineRules

/-!
# Rules for the sections

The sections write to the table of tasks in a few ways: they make tasks, put them into other columns, restore them,
bring them from a file, shift them when a column goes, delete them, and else change what is neither the place of a
task nor for good. A relation between stores that such writes keep to, and whatever is beside tasks and slips, is
`TasksWithin`, and every section keeps to it: `TasksWithin.update`, `TasksWithin.semantics_run`.
-/

set_option autoImplicit false
set_option relaxedAutoImplicit false

namespace Taskologic.Daemon

open Taskologic.Core Taskologic.Library

/-- The row keeps its id and the time at which it was made, and its place if the task is live. -/
structure KeepsPlace (row row' : TaskRow) : Prop where
  id : row'.id = row.id
  createdAt : row'.createdAt = row.createdAt
  place : row'.isArchived = false →
    row.isArchived = false ∧ row.columnId = row'.columnId ∧ row.position = row'.position

theorem KeepsPlace.refl (row : TaskRow) : KeepsPlace row row := ⟨rfl, rfl, fun hlive ↦ ⟨hlive, rfl, rfl⟩⟩

/-- The part of a store the rules are about. -/
structure TaskTables where
  tasks : List TaskRow
  slips : List SlipRow
  nextTask : TaskId

def Store.taskTables (s : Store) : TaskTables := ⟨s.tasks, s.slips, s.nextTask⟩

/-- A relation between stores that whatever is done to tasks and slips keeps to, and whatever is beside them. -/
structure TasksWithin (R : Store → Store → Prop) : Prop where
  beside : ∀ s s', s'.taskTables = s.taskTables → R s s'
  print : ∀ s slip, R s { s with slips := s.slips ++ [slip] }
  drop : ∀ s gone, R s (s.dropTasks gone)
  rows : ∀ s f, (∀ row, KeepsPlace row (f row)) → R s { s with tasks := s.tasks.map f }
  create : ∀ outside board column draft creator fromTemplate,
    Tx.Within R (createTask outside board column draft creator fromTemplate)
  move : ∀ outside task plan position, Tx.Within R (applyMove outside task plan position)
  restore : ∀ outside task destination, Tx.Within R (restoreTask outside task destination)
  bring : ∀ outside board maps task, Tx.Within R (importTask outside board maps task)
  shift : ∀ sweep removed destination, Tx.Within R (moveColumnTasks sweep removed destination)

namespace TasksWithin

variable {R : Store → Store → Prop}

theorem write (h : TasksWithin R) {f : Store → Store}
    (hf : ∀ s, (f s).taskTables = s.taskTables) : Tx.Within R (Tx.write f : Work Unit) :=
  .write fun s ↦ h.beside s _ (hf s)

/-- A row changes beside its place. -/
theorem row (h : TasksWithin R) (s : Store) (task : TaskId) {f : TaskRow → TaskRow} (hf : ∀ row, KeepsPlace row (f row)) :
    R s (s.modifyTask task f) := by
  refine h.rows s _ fun row ↦ ?_
  split_ifs
  · exact hf row
  · exact .refl row

theorem modifyTask (h : TasksWithin R) (task : TaskId) {f : TaskRow → TaskRow} (hf : ∀ row, KeepsPlace row (f row)) :
    Tx.Within R (Tx.write fun s ↦ s.modifyTask task f : Work Unit) := .write fun s ↦ h.row s task hf

theorem recordEvent (h : TasksWithin R) (board : BoardId) (task : Option TaskId) (actor : Option Uid)
    (kind : EventKind) (now : Instant) : Tx.Within R (recordEvent board task actor kind now) :=
  h.write fun _ ↦ rfl

theorem advanceRepeat (h : TasksWithin R) (task : TaskId) (next : Option Instant) :
    Tx.Within R (advanceRepeat task next) := by
  cases next with
  | none => exact h.write fun _ ↦ rfl
  | some next => exact h.write fun _ ↦ rfl

variable [Std.Refl R] [IsTrans Store R]

theorem setRepeat (h : TasksWithin R) (outside : Outside) (task : TaskId) (spec : Option RepeatSpec) :
    Tx.Within R (setRepeat outside task spec) := by
  cases spec with
  | none => exact h.write fun _ ↦ rfl
  | some spec => exact .bind (.lift _) fun _ ↦ h.write fun _ ↦ rfl

theorem writeRelations (h : TasksWithin R) (outside : Outside) (task : TaskId) (draft : TaskDraft) :
    Tx.Within R (writeRelations outside task draft) :=
  .bind (reads_demand _ _).within fun _ ↦ .bind (h.write fun _ ↦ rfl) fun _ ↦
    .bind (reads_demand _ _).within fun _ ↦ .bind (h.write fun _ ↦ rfl) fun _ ↦ h.setRepeat _ _ _

theorem softDeleteTask (h : TasksWithin R) (outside : Outside) (task : Task) :
    Tx.Within R (softDeleteTask outside task) :=
  .bind (h.modifyTask _ fun _ ↦ ⟨rfl, rfl, fun hlive ↦ nomatch hlive⟩) fun _ ↦
    .bind (h.write fun _ ↦ rfl) fun _ ↦ (reads_requireTask _).within

/-- Programs keep to it. -/
theorem engine (h : TasksWithin R) (outside : Outside) (board : Board) : EngineWithin outside board R where
  beside s s' hkept _ :=
    h.beside s s' (congrArg (fun kept : Kept ↦ (⟨kept.tasks, kept.slips, kept.nextTask⟩ : TaskTables)) hkept)
  slips := h.print
  rows s task f hf := h.row s task fun row ↦ by
    have hsame {α : Type} (field : TaskRow → α) : field (undated (f row)) = field (undated row) := by rw [hf row]
    exact ⟨hsame TaskRow.id, hsame TaskRow.createdAt, fun hlive ↦
      ⟨(hsame TaskRow.isArchived).symm.trans hlive, (hsame TaskRow.columnId).symm, (hsame TaskRow.position).symm⟩⟩
  make _ _ _ _ := h.create _ _ _ _ _ _
  link _ := .bind (reads_demand _ _).within fun _ ↦ h.write fun _ ↦ rfl
  note s _ _ _ := h.beside s _ rfl
  close _ := by
    refine .bind (reads_requireTask _).within fun root ↦ .ite (fun _ ↦ ?_) fun _ ↦ .pure _
    exact .bind (.lift _) fun plan ↦ .bind (h.move _ _ _ _) fun _ ↦
      .bind (h.write fun _ ↦ rfl) fun _ ↦ .pure _

/-! ### Files -/

theorem importBoardRows (h : TasksWithin R) (outside : Outside) (clash : Clash) (maps : Maps)
    (bundle : BoardBundle) : Tx.Within R (importBoardRows outside clash maps bundle) := by
  have hboard : Tx.Within R (importBoard outside bundle.board clash maps) :=
    .bind (reads_demand _ _).within fun _ ↦ .bind (.read _) fun _ ↦ .bind (.read _) fun _ ↦
      .bind (reads_keptShortId _ _ _ _ _ _).within fun _ ↦ .bind (.require _ _) fun _ ↦
        .bind (.require _ _) fun _ ↦ .bind (.require _ _) fun _ ↦
          .bind (h.write fun _ ↦ rfl) fun _ ↦ .pure _
  have htemplate (board : BoardId) (template : Template) :
      Tx.Within R (importTemplate outside board clash template) :=
    .bind (.read _) fun _ ↦ .bind (.read _) fun _ ↦ .bind (reads_keptShortId _ _ _ _ _ _).within fun _ ↦
      .bind (h.write fun _ ↦ rfl) fun _ ↦ .pure _
  have hprogram (board : BoardId) (program : Program) :
      Tx.Within R (importProgram outside board clash program) :=
    .bind (.read _) fun _ ↦ .bind (.read _) fun _ ↦ .bind (reads_keptShortId _ _ _ _ _ _).within fun _ ↦
      .bind (h.write fun _ ↦ rfl) fun _ ↦ .pure _
  have hlink (maps : Maps) (templates : List Template) : Tx.Within R (linkTemplates maps templates) := by
    refine h.write fun s ↦ ?_
    induction templates generalizing s with
    | nil => rfl
    | cons template rest ih =>
      rw [List.foldl_cons, ih]
      split
      · split_ifs <;> rfl
      · rfl
  exact .bind (.read _) fun board ↦ .bind hboard fun maps ↦
    .bind (.each fun template _ ↦ htemplate _ template) fun templates ↦ .bind (hlink _ _) fun _ ↦
      .bind (.each fun program _ ↦ hprogram _ program) fun programs ↦
        .bind (.each fun task _ ↦ h.bring _ _ _ task) fun tasks ↦ .pure _

omit [IsTrans Store R] in
theorem importSlip (h : TasksWithin R) (maps : Maps) (slip : SlipRow) :
    Tx.Within R (importSlip maps slip) := by
  refine .write fun s ↦ ?_
  split
  · rename_i id _
    by_cases hold : ({ slip with taskId := id } : SlipRow) ∈ s.slips
    · exact h.beside _ _ (by rw [insertNew, if_pos hold])
    · rw [insertNew, if_neg hold]
      exact h.print s _
  · exact refl_of _ _

theorem importLinks (h : TasksWithin R) (maps : Maps) (bundle : BoardBundle) :
    Tx.Within R (importLinks maps bundle) := by
  have hdeps (task : Task) : Tx.Within R (importDeps maps task) := by
    refine h.write fun s ↦ ?_
    split
    · induction task.dependsOn generalizing s with
      | nil => rfl
      | cons dep rest ih =>
        rw [List.foldl_cons, ih]
        split <;> rfl
    · rfl
  have hrepeat (row : RepeatRow) : Tx.Within R (importRepeat maps row) := by
    refine h.write fun s ↦ ?_
    split <;> rfl
  have hlink (run : RunId) (link : TaskLink) : Tx.Within R (importLink maps run link) := by
    refine h.write fun s ↦ ?_
    split
    · split_ifs <;> rfl
    · rfl
  have hrun (board : BoardId) (startedCol : ColumnId) (run : RunBundle) :
      Tx.Within R (importRun maps board startedCol run) := by
    unfold importRun
    split
    · exact .pure _
    · exact .bind (.read _) fun _ ↦ .bind (h.write fun _ ↦ rfl) fun _ ↦
        .bind (.each fun link _ ↦ hlink _ link) fun _ ↦ .pure _
  exact .bind (.require _ _) fun board ↦ .bind (.each fun task _ ↦ hdeps task) fun _ ↦
    .bind (.each fun row _ ↦ hrepeat row) fun _ ↦ .bind (reads_requireBoard _).within fun stored ↦
      .bind (.each fun run _ ↦ hrun _ _ run) fun _ ↦
        .bind (.each fun slip _ ↦ h.importSlip _ slip) fun _ ↦ .pure _

theorem importEverything (h : TasksWithin R) (outside : Outside) (file : ImportFile) (wholeServer : Bool)
    (clash : Clash) : Tx.Within R (importEverything outside file wholeServer clash) := by
  have hpeople : Tx.Within R (importPeople file.users wholeServer) := by
    refine h.write fun s ↦ ?_
    split_ifs with hfirst
    · rfl
    · clear hfirst
      generalize file.users = people
      induction people generalizing s with
      | nil => rfl
      | cons person rest ih =>
        rw [List.foldl_cons, ih]
        split_ifs <;> rfl
  have hevents (maps : Maps) (bundle : BoardBundle) : Tx.Within R (importEvents maps bundle) :=
    .bind (.require _ _) fun _ ↦ h.write fun _ ↦ rfl
  exact .bind hpeople fun _ ↦ .bind (within_eachWith (fun _ _ ↦ h.importBoardRows _ _ _ _) _ _) fun _ ↦
    .bind (within_eachWith (fun _ _ ↦ h.importLinks _ _) _ _) fun maps ↦
      .bind (.each fun bundle _ ↦ hevents maps bundle) fun _ ↦ .pure _

/-! ### All updates -/

theorem saveBoard (h : TasksWithin R) (outside : Outside) (actor : Uid) (before : Board) (req : UpdateBoard) :
    Tx.Within R (saveBoard outside actor before req) := by
  have hupdate : Tx.Within R (updateBoard before req) := by
    intro s a s' hrun
    rw [updateBoard_eq_ok hrun]
    exact h.beside _ _ rfl
  have hcarry (board : BoardId) (uid : Uid) : Tx.Within R (carryOver outside actor board uid) :=
    .bind (h.write fun _ ↦ rfl) fun _ ↦ h.recordEvent _ _ _ _ _
  refine .bind hupdate fun after ↦ ?_
  refine .ite (fun _ ↦ .bind (.read _) fun _ ↦ .bind (.each fun uid _ ↦ hcarry after.id uid) fun _ ↦ ?_)
    fun _ ↦ ?_
  all_goals exact .bind (h.recordEvent _ _ _ _ _) fun _ ↦ (reads_requireBoard _).within

theorem dropColumn (h : TasksWithin R) (outside : Outside) (actor : Uid) (board : Board)
    (plan : ColumnRemoval) : Tx.Within R (dropColumn outside actor board plan) := by
  refine .bind ?_ fun _ ↦ h.recordEvent _ _ _ _ _
  exact .bind (h.shift _ _ _) fun _ ↦ .bind (h.write fun _ ↦ rfl) fun _ ↦
    .bind (reads_demand _ _).within fun _ ↦ h.write fun _ ↦ rfl

theorem leaveBoard (h : TasksWithin R) (outside : Outside) (actor : Uid) (board : Board) (uid : Uid)
    (unassign : Bool) : Tx.Within R (leaveBoard outside actor board uid unassign) := by
  refine .bind (.read _) fun _ ↦ .bind (.check _ _) fun _ ↦ .bind ?_ fun _ ↦
    .bind (h.write fun _ ↦ rfl) fun _ ↦ .bind (h.recordEvent _ _ _ _ _) fun _ ↦ .pure _
  refine .bind (.read _) fun tasks ↦ .bind (.write fun s ↦ ?_) fun _ ↦ .pure _
  refine IsTrans.trans _ _ _ (h.rows s _ fun row ↦ ?_) (h.beside _ _ rfl)
  split_ifs
  · exact ⟨rfl, rfl, fun hlive ↦ ⟨hlive, rfl, rfl⟩⟩
  · exact .refl row

theorem reorderColumns (h : TasksWithin R) (board : Board) (order : List ColumnId) :
    Tx.Within R (reorderColumns board order) := by
  refine .bind (.check _ _) fun _ ↦ h.write fun s ↦ ?_
  induction order.zipIdx generalizing s with
  | nil => rfl
  | cons entry rest ih => exact ih _

theorem createFromTemplate (h : TasksWithin R) (outside : Outside) (actor : Uid) (board : Board)
    (template : TemplateId) (column : ColumnId) (draft : TaskDraft) :
    Tx.Within R (createFromTemplate outside actor board template column draft) := by
  have hstamp (anchors : TemplateId → Option Instant) (rootStart : Instant) (id : TemplateId) :
      Tx.Within R (stamp outside actor board column anchors rootStart id) := by
    refine .bind (.read _) fun found ↦ ?_
    cases found with
    | none => exact .pure _
    | some template => exact .bind (h.create _ _ _ _ _ _) fun _ ↦ .pure _
  exact .bind (.read _) fun _ ↦ .bind (.each fun id _ ↦ hstamp _ _ id) fun _ ↦
    .bind (reads_checkDeps _ _ _).within fun _ ↦ .bind (reads_checkPrintRecipients _).within fun _ ↦
      h.create _ _ _ _ _ _

/-- Every update keeps to it. -/
theorem update (h : TasksWithin R) {α : Type} (outside : Outside) (update : Update α) :
    Tx.Within R (update.work outside) := by
  have hwrite {f : Store → Store} (hf : ∀ s, (f s).taskTables = s.taskTables) :
      Tx.Within R (Tx.write f : Work Unit) := h.write hf
  have hmodify (task : TaskId) {f : TaskRow → TaskRow} (hf : ∀ row, KeepsPlace row (f row)) :
      Tx.Within R (Tx.write fun s ↦ s.modifyTask task f : Work Unit) := h.modifyTask task hf
  cases update with
  | importEverything file wholeServer clash => exact h.importEverything _ _ _ _
  | moveTaskBy actor board task destination position overrideDeps answer =>
    exact (h.engine _ _).moveTaskBy _ _ _ _ _ _ fun _ _ _ ↦ h.move _ _ _ _
  | giveAnswer board task answer => exact (h.engine _ _).plan.giveAnswer _ _
  | startProgram actor board program column startAt fanOut =>
    exact (h.engine _ _).plan.startProgram _ _ _ _ _
  | deleteTask actor board task => exact (h.engine _ _).plan.deleteTask _ _ (h.softDeleteTask _ _)
  | cancel actor board run deleteOpenTasks =>
    exact (h.engine _ board).plan.cancel _ _ fun task ↦ h.softDeleteTask _ _
  | bringBack actor board task destination =>
    exact .bind (h.restore _ _ _) fun _ ↦ .bind (h.recordEvent _ _ _ _ _) fun _ ↦
      .bind ((h.engine outside board).plan.afterRestore _) fun _ ↦ .pure _
  | saveTask actor board task draft =>
    refine .bind (.lift _) fun _ ↦ .bind (reads_checkDeps _ _ _).within fun _ ↦
      .bind (reads_checkPrintRecipients _).within fun _ ↦ .bind ?_ fun _ ↦
        .bind (h.recordEvent _ _ _ _ _) fun _ ↦ .pure _
    exact .bind (hmodify _ fun _ ↦ ⟨rfl, rfl, fun hlive ↦ ⟨hlive, rfl, rfl⟩⟩) fun _ ↦
      .bind (h.writeRelations _ _ _) fun _ ↦ (reads_requireTask _).within
  | spawnRepeat board firstCol task =>
    exact .bind (h.create _ _ _ _ _ _) fun _ ↦ .bind (h.recordEvent _ _ _ _ _) fun _ ↦
      .bind (h.advanceRepeat _ _) fun _ ↦ .pure _
  | advanceRepeat task next => exact h.advanceRepeat _ _
  | purge actor board task =>
    exact .bind (h.recordEvent _ _ _ _ _) fun _ ↦ .write fun s ↦ h.drop s _
  | removeBoard actor board =>
    exact .bind (h.recordEvent _ _ _ _ _) fun _ ↦ .bind (reads_demand _ _).within fun _ ↦
      .write fun s ↦ IsTrans.trans s _ _ (h.drop s fun row ↦ row.boardId == board) (h.beside _ _ rfl)
  | endRepeat actor board task =>
    refine .bind ?_ fun _ ↦ .bind (h.recordEvent _ _ _ _ _) fun _ ↦ .pure _
    refine .bind (.write fun s ↦ ?_) fun _ ↦ (reads_requireTask _).within
    exact IsTrans.trans _ _ _ (h.beside s (s.setRepeat task.id none) rfl)
      (h.row _ task.id fun _ ↦ ⟨rfl, rfl, fun hlive ↦ ⟨hlive, rfl, rfl⟩⟩)
  | leaveBoard actor board uid unassign => exact h.leaveBoard _ _ _ _ _
  | saveBoard actor before req => exact h.saveBoard _ _ _ _
  | reorderColumns board order => exact h.reorderColumns _ _
  | dropColumn actor board plan => exact h.dropColumn _ _ _ _
  | createFromTemplate actor board template column draft => exact h.createFromTemplate _ _ _ _ _ _
  | archive board task =>
    refine .bind ?_ fun _ ↦ .bind (h.recordEvent _ _ _ _ _) fun _ ↦ .pure _
    exact .bind (hmodify _ fun _ ↦ ⟨rfl, rfl, fun hlive ↦ nomatch hlive⟩) fun _ ↦ (reads_requireTask _).within
  | login uid hostTz forceAdmin =>
    refine .bind (hwrite fun s ↦ ?_) fun _ ↦ (reads_requireUser _).within
    split_ifs <;> rfl
  | _ =>
    repeat' first
      | exact .pure _
      | exact .read _
      | exact .require _ _
      | exact .lift _
      | exact .check _ _
      | exact (reads_demand _ _).within
      | exact (reads_requireUser _).within
      | exact (reads_requireTask _).within
      | exact (reads_requireBoard _).within
      | exact (reads_requireTemplate _).within
      | exact (reads_requireProgram _).within
      | exact (reads_checkDeps _ _ _).within
      | exact (reads_checkPrintRecipients _).within
      | exact (reads_checkProgram _ _).within
      | exact (reads_templateInput _ _ _ _ _).within
      | exact h.create _ _ _ _ _ _
      | exact hwrite fun _ ↦ rfl
      | exact hmodify _ fun _ ↦ ⟨rfl, rfl, fun hlive ↦ ⟨hlive, rfl, rfl⟩⟩
      | refine .bind ?_ fun _ ↦ ?_

/-- A section keeps to it. -/
theorem semantics_run (h : TasksWithin R) {α : Type} (body : Section α) (outside : Outside) (s : Store) :
    R s (semantics.run body outside s).2 := by
  cases body with
  | read query =>
    rw [snd_run_read]
    exact refl_of R s
  | write update =>
    rcases snd_commit (update.work outside) s with hsame | ⟨a, hrun⟩
    · change R s (commit (update.work outside) s).2
      rw [hsame]
      exact refl_of R s
    · exact h.update outside update s a _ hrun

end TasksWithin

end Taskologic.Daemon
