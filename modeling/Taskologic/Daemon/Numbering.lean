import Taskologic.Daemon.EngineAccounts
import Taskologic.Daemon.Server
import Taskologic.Library.Issued

/-!
# Every update is a chain of changes it may make

Ids are given out in order and a task belongs to one run at most (`Store.Numbered`): every change keeps to it
(`Store.Numbered.change`). From a store that is numbered an update is a chain of the changes it is allowed
(`chain_update`), and leaves the store numbered (`numbered_section`).
-/

set_option autoImplicit false
set_option relaxedAutoImplicit false

namespace Taskologic.Daemon

open Taskologic.Core Taskologic.Library

/-! ### Ids -/

/-- Ids are given out in order, and a task belongs to one run at most. -/
structure Store.Numbered (s : Store) : Prop where
  tasks : Issued TaskRow.id s.nextTask s.tasks
  runs : Issued Run.id s.nextRun s.runs
  boards : Issued Board.id s.nextBoard s.boards
  links : Keyed TaskLink.taskId s.links
  linkRuns : ∀ link ∈ s.links, link.run < s.nextRun

namespace Store.Numbered

variable {s s' : Store} {effect : Effect}

theorem empty : Store.empty.Numbered :=
  ⟨.nil, .nil, .nil, List.nodup_nil, fun _ hlink ↦ (List.not_mem_nil hlink).elim⟩

/-- Links that keep the task and the run they are about. -/
theorem modifyLink (h : s.Numbered) (task : TaskId) {f : TaskLink → TaskLink}
    (hf : ∀ link, (f link).taskId = link.taskId ∧ (f link).run = link.run ∧ (f link).step = link.step) :
    (s.modifyLink task f).Numbered where
  tasks := h.tasks
  runs := h.runs
  boards := h.boards
  links := by
    have hids : (s.modifyLink task f).links.map TaskLink.taskId = s.links.map TaskLink.taskId := by
      rw [Store.modifyLink, List.map_map]
      refine List.map_congr_left fun link _ ↦ ?_
      rw [Function.comp_apply]
      split_ifs
      · exact (hf link).1
      · rfl
    rw [Keyed, hids]
    exact h.links
  linkRuns link hlink := by
    obtain ⟨before, hbefore, rfl⟩ := List.mem_map.mp hlink
    have hrun := h.linkRuns before hbefore
    split_ifs
    · rw [(hf before).2.1]
      exact hrun
    · exact hrun

/-- One more link, of a task that has none. -/
theorem link (h : s.Numbered) {link : TaskLink} (next : RunId) (hnew : s.taskLink link.taskId = none)
    (hrun : link.run < next) (hnext : s.nextRun ≤ next) :
    Keyed TaskLink.taskId (s.links ++ [link]) ∧ ∀ other ∈ s.links ++ [link], other.run < next := by
  constructor
  · rw [Keyed, List.map_append, List.map_singleton]
    refine List.nodup_append.mpr ⟨h.links, List.nodup_singleton _, ?_⟩
    rintro id hid other hother rfl
    obtain rfl := List.mem_singleton.mp hother
    obtain ⟨earlier, hearlier, hsame⟩ := List.mem_map.mp hid
    exact absurd (List.find?_eq_none.mp hnew earlier hearlier) (by simp [hsame])
  · intro other hother
    rcases List.mem_append.mp hother with hother | hother
    · exact lt_of_lt_of_le (h.linkRuns other hother) hnext
    · obtain rfl := List.mem_singleton.mp hother
      exact hrun

/-- Tasks that go take their runs and links along. -/
theorem dropTasks (h : s.Numbered) (gone : TaskRow → Bool) : (s.dropTasks gone).Numbered where
  tasks := h.tasks.sublist List.filter_sublist
  runs := h.runs.sublist List.filter_sublist
  boards := h.boards
  links := h.links.sublist (List.filter_sublist.map _)
  linkRuns link hlink := h.linkRuns link (List.mem_of_mem_filter hlink)

theorem dropBoard (h : s.Numbered) (board : BoardId) : (s.dropBoard board).Numbered where
  tasks := (h.dropTasks _).tasks
  runs := ((h.dropTasks _).runs.sublist List.filter_sublist).map fun _ ↦ rfl
  boards := (h.dropTasks _).boards.sublist List.filter_sublist
  links := (h.dropTasks _).links.sublist (List.filter_sublist.map _)
  linkRuns link hlink := (h.dropTasks _).linkRuns link (List.mem_of_mem_filter hlink)

/-- Every change leaves ids in order. -/
theorem change (h : s.Numbered) (hchange : Change effect s s') : s'.Numbered := by
  cases hchange with
  | aside hbeside =>
    refine ⟨?_, ?_, ?_, ?_, ?_⟩
    · exact hbeside.tasks ▸ hbeside.nextTask ▸ h.tasks
    · exact hbeside.runs ▸ hbeside.nextRun ▸ h.runs
    · exact hbeside.boards ▸ hbeside.nextBoard ▸ h.boards
    · exact hbeside.links ▸ h.links
    · exact hbeside.links ▸ hbeside.nextRun ▸ h.linkRuns
  | addBoard board width hid => exact { h with boards := h.boards.add hid }
  | editBoards f hid => exact { h with boards := h.boards.map hid }
  | setRoles board roles => exact { h with boards := h.boards.modify (setRoles_id roles) }
  | addColumn board f hid => exact { h with boards := h.boards.modify hid }
  | cutColumn column => exact { h with boards := h.boards.map fun _ ↦ rfl }
  | dropBoard board => exact h.dropBoard board
  | addTask row hid => exact { h with tasks := by simpa [Store.insertTask, hid] using h.tasks.add hid }
  | editTasks f hid => exact { h with tasks := h.tasks.map hid }
  | save task f hid => exact { h with tasks := h.tasks.modify hid }
  | date task f hid => exact { h with tasks := h.tasks.modify hid }
  | place task column f hid => exact { h with tasks := h.tasks.modify hid }
  | close run column f hid => exact { h with tasks := h.tasks.modify hid }
  | shift sweep source destination base =>
    exact { h with tasks := h.tasks.map fun row ↦ by split_ifs <;> rfl }
  | dropTasks gone => exact h.dropTasks gone
  | addRun run link hid hactive hstarted hcolumn hroot hnew hlink =>
    obtain ⟨hlinks, hlinkRuns⟩ := h.link (run.id + 1) (hlink.1 ▸ hnew) (hlink.2.1 ▸ Nat.lt_succ_self _)
      (hid ▸ Nat.le_succ _)
    exact { h with runs := hid ▸ h.runs.add hid, links := hlinks, linkRuns := hlinkRuns }
  | importRun run hid reactions =>
    exact { h with
      runs := hid ▸ h.runs.add hid
      linkRuns := fun link hlink ↦ hid ▸ Nat.lt_succ_of_lt (h.linkRuns link hlink) }
  | startRun run now => exact { h with runs := h.runs.modify fun _ ↦ rfl }
  | finishRun run now => exact { h with runs := h.runs.modify fun _ ↦ rfl }
  | cancelRun run now => exact { h with runs := h.runs.modify fun _ ↦ rfl }
  | editRuns f => exact { h with runs := h.runs.map fun _ ↦ rfl }
  | addLink link hnew hactive =>
    obtain ⟨run, hrun, hid, -⟩ := hactive
    obtain ⟨hlinks, hlinkRuns⟩ := h.link _ hnew (hid ▸ h.runs.below run hrun) le_rfl
    exact { h with links := hlinks, linkRuns := hlinkRuns }
  | importLink link hnew hrun =>
    obtain ⟨hlinks, hlinkRuns⟩ := h.link _ hnew hrun le_rfl
    exact { h with links := hlinks, linkRuns := hlinkRuns }
  | settle task f hf => exact h.modifyLink task hf
  | note task f hf => exact h.modifyLink task hf
  | react run event => exact { h with }

end Store.Numbered

section Sections

variable {outside : Outside} {board : Board} {s s' : Store} {allowed : Effect → Prop}

/-- What is made of changes leaves ids in order. -/
theorem Store.Numbered.chain (h : s.Numbered) (hchain : Chain allowed s s') : s'.Numbered :=
  hchain.keeps (fun _ _ _ _ hchange h ↦ h.change hchange) h

/-- A task that was just made is found in its column. -/
theorem taskRow_created {column : ColumnId} {draft : TaskDraft} {creator : Uid} {fromTemplate : Option TemplateId}
    {task : Task} (hids : s.Numbered)
    (h : createTask outside board column draft creator fromTemplate s = .ok (task, s')) :
    s'.hasColumn column = true ∧ ∃ row, s'.taskRow task.id = some row ∧ row.columnId = column := by
  obtain ⟨row, hrow, hcolumn, -, hthere, hbeside, hfound⟩ := createTask_spec h
  constructor
  · unfold Store.hasColumn Store.columnBoard at hthere ⊢
    rw [hbeside.boards]
    exact hthere
  · refine ⟨row, ?_, hcolumn⟩
    rw [Store.id_of_task hfound, hrow, Store.taskRow, hbeside.tasks]
    exact hids.tasks.find?_add hrow

/-- A run that was just made. -/
theorem createRun_spec {program : Program} {root : TaskId} {startedBy : Uid} {column : ColumnId} {run : Run}
    (hids : s.Numbered) (h : createRun outside program root startedBy column s = .ok (run, s')) :
    run.id = s.nextRun ∧ run.isActive = true ∧ run.startedAt = none ∧ run.columnId = column ∧
      run.boardId = program.boardId ∧ run.rootTask = root ∧
      s' = { s with runs := s.runs ++ [run], nextRun := run.id + 1 } := by
  simp only [createRun, Tx.bind_eq_ok, demand_eq_ok, Tx.read_eq_ok, Tx.write_eq_ok, Prod.mk.injEq,
    requireRun_eq_ok] at h
  obtain ⟨_, _, ⟨-, -, rfl⟩, _, _, ⟨rfl, rfl⟩, _, _, ⟨-, rfl⟩, _, hrun, rfl, rfl⟩ := h
  obtain rfl := Option.some.inj ((hids.runs.find?_add rfl).symm.trans hrun)
  exact ⟨rfl, rfl, rfl, rfl, rfl, rfl, rfl⟩

theorem linkTask_spec {link : TaskLink} {r : Unit} (h : linkTask link s = .ok (r, s')) :
    s.taskLink link.taskId = none ∧ s' = { s with links := s.links ++ [link] } := by
  simp only [linkTask, Tx.bind_eq_ok, demand_eq_ok, Tx.write_eq_ok, Prod.mk.injEq, Bool.and_eq_true,
    Option.isNone_iff_eq_none] at h
  obtain ⟨_, _, ⟨⟨⟨hnew, -⟩, -⟩, -, rfl⟩, -, rfl⟩ := h
  exact ⟨hnew, rfl⟩

/-- The start of a run: its root, the run with its link, and what is made with the root. -/
theorem chain_start {program : Program} {starter : User} {column : ColumnId} {startAt : Option Instant}
    {fanOut : List (Text × List Text)} {result : Task × Effects} (hids : s.Numbered) (haside : allowed .aside)
    (htask : allowed .addTask)
    (hreacts : ∀ run effect, s.nextRun ≤ run → effect.Reacts run board.finishedCol .created → allowed effect)
    (hadd : ∀ run : Run, run.columnId = column → run.boardId = program.boardId → s.nextTask ≤ run.rootTask →
      allowed (.addRun run))
    (h : start outside board program starter column startAt fanOut s = .ok (result, s')) : Chain allowed s s' := by
  simp only [start, Tx.bind_eq_ok, Tx.lift_eq_ok, Tx.require_eq_ok, Prod.mk.injEq, requireTask_eq_ok, Tx.pure_eq_ok] at h
  obtain ⟨_, _, ⟨_, -, rfl, rfl⟩, _, _, ⟨rootStep, -, rfl, rfl⟩, root, made, hmade, run, begun, hbegun, _, linked,
    hlinked, _, noted, hnoted, effects, told, htold, _, _, ⟨_, -, -, rfl⟩, -, rfl⟩ := h
  have hmadeChain := chain_createTask haside htask _ _ _ _ _ _ _ _ _ hmade
  have hmadeIds := hids.chain hmadeChain
  obtain ⟨hthere, row, hrow, hcolumn⟩ := taskRow_created hids hmade
  obtain ⟨hid, hactive, hstarted, hin, hon, hroot, rfl⟩ := createRun_spec hmadeIds hbegun
  obtain ⟨hunlinked, rfl⟩ := linkTask_spec hlinked
  obtain ⟨-, rfl⟩ := Prod.ext_iff.mp (recordEvent_eq_ok.mp hnoted)
  obtain ⟨new, hnew, -, -, -, hbeside, hfound⟩ := createTask_spec hmade
  have hnext : s.nextRun ≤ run.id := by
    rw [hid, hbeside.nextRun]
    exact le_rfl
  have hfresh : s.nextTask ≤ run.rootTask := by
    rw [hroot, Store.id_of_task hfound, hnew]
  have hbegin : Chain allowed made { made with
      runs := made.runs ++ [run], nextRun := run.id + 1
      links := made.links ++ [newLink run.id root.id rootKey 1 none false rootStep.timeLimit none] } :=
    .single (.addRun run _ hid hactive hstarted (hin ▸ hthere) ⟨row, hroot ▸ hrow, hcolumn.trans hin.symm⟩
      (hroot ▸ hunlinked) ⟨hroot.symm, rfl, rfl, rfl, rfl⟩) (hadd run hin hon hfresh)
  refine (hmadeChain.trans hbegin).trans (Chain.trans (.single (.aside ?_) haside)
    ((chain_apply ?_ hactive htold).mono fun effect heffect ↦ hreacts run.id effect hnext heffect))
  · rfl
  · exact List.mem_append_right _ (List.mem_singleton.mpr rfl)

end Sections

/-! ### Files -/

/-- What a file brings: boards, tasks and runs with ids from `base` on. -/
def Imports (base : RunId) : Effect → Prop
  | .aside | .addBoard | .addTask | .importRun _ => True
  | .importLink link => base ≤ link.run
  | _ => False

/-- From `bound` on, only what a file brings happens. -/
def Brings (base bound : RunId) (s s' : Store) : Prop := bound ≤ s.nextRun → Chain (Imports base) s s'

/-- A file takes no run number back. -/
theorem nextRun_le_of_imports {base : RunId} {s s' : Store} (h : Chain (Imports base) s s') :
    s.nextRun ≤ s'.nextRun := by
  refine h.keeps (P := fun t ↦ s.nextRun ≤ t.nextRun) (fun effect t t' hallowed hchange hle ↦ ?_) le_rfl
  cases hchange with
  | aside hbeside => exact hbeside.nextRun ▸ hle
  | addBoard | addTask | importLink => exact hle
  | importRun run hid => exact hle.trans (hid ▸ Nat.le_succ _)
  | _ => exact hallowed.elim

section Imports

variable {base bound : RunId}

instance : Std.Refl (Brings base bound) := ⟨fun _ _ ↦ .refl⟩

instance : IsTrans Store (Brings base bound) :=
  ⟨fun _ _ _ hone htwo h ↦ (hone h).trans (htwo (h.trans (nextRun_le_of_imports (hone h))))⟩

theorem brings_of_chain {α : Type} {work : Work α} (h : Tx.Within (Chain (Imports base)) work) :
    Tx.Within (Brings base bound) work :=
  h.mono fun _ _ hchain _ ↦ hchain

theorem brings_aside {f : Store → Store} (hf : ∀ s, Aside s (f s)) :
    Tx.Within (Brings base bound) (Tx.write f : Work Unit) :=
  brings_of_chain (chain_aside trivial hf)

theorem chain_importBoard (outside : Outside) (board : Board) (clash : Clash) (maps : Maps) :
    Tx.Within (Chain (Imports base)) (importBoard outside board clash maps) := by
  intro s maps' s' h
  simp only [importBoard, importRole, Tx.bind_eq_ok, Tx.read_eq_ok, Tx.write_eq_ok, Tx.require_eq_ok,
    Tx.pure_eq_ok, demand_eq_ok, Prod.mk.injEq] at h
  obtain ⟨_, _, ⟨-, -, rfl⟩, _, _, ⟨rfl, rfl⟩, _, _, ⟨rfl, rfl⟩, shortId, _, hshort, _, _, ⟨_, -, rfl, rfl⟩,
    _, _, ⟨_, -, rfl, rfl⟩, _, _, ⟨_, -, rfl, rfl⟩, _, _, ⟨-, rfl⟩, -, rfl⟩ := h
  obtain rfl := reads_keptShortId _ _ _ _ _ _ _ _ _ hshort
  refine .single (.addBoard _ board.columns.length rfl fun c hc ↦ ?_) trivial
  obtain ⟨⟨before, index⟩, hmem, rfl⟩ := List.mem_map.mp (mem_sortColumns.mp hc)
  exact ⟨Nat.le_add_right _ _, Nat.add_lt_add_left (List.snd_lt_of_mem_zipIdx hmem) _⟩

theorem chain_importTask (outside : Outside) (board : BoardId) (maps : Maps) (task : Task) :
    Tx.Within (Chain (Imports base)) (importTask outside board maps task) := by
  intro s pair s' h
  obtain ⟨row, hid, -, -, -, rfl⟩ := importTask_eq_ok h
  exact Chain.trans (.single (.addTask row hid) trivial) (.single (.aside rfl) trivial)

theorem chain_importBoardRows (outside : Outside) (clash : Clash) (maps : Maps) (bundle : BoardBundle) :
    Tx.Within (Chain (Imports base)) (importBoardRows outside clash maps bundle) := by
  refine .bind (.read _) fun board ↦ .bind (chain_importBoard _ _ _ _) fun maps ↦ .bind (.each fun template _ ↦ ?_) fun _ ↦
    .bind (chain_aside trivial fun s ↦ ?_) fun _ ↦ .bind (.each fun program _ ↦ ?_) fun _ ↦
      .bind (.each fun task _ ↦ chain_importTask _ _ _ _) fun _ ↦ .pure _
  · exact .bind (.read _) fun _ ↦ .bind (.read _) fun _ ↦
      .bind (reads_keptShortId _ _ _ _ _ _).within fun _ ↦ .bind (chain_aside trivial fun _ ↦ rfl) fun _ ↦ .pure _
  · induction bundle.templates generalizing s with
    | nil => rfl
    | cons template rest ih =>
      rw [List.foldl_cons]
      refine Aside.trans ?_ (ih _)
      split
      · split_ifs <;> rfl
      · rfl
  · exact .bind (.read _) fun _ ↦ .bind (.read _) fun _ ↦
      .bind (reads_keptShortId _ _ _ _ _ _).within fun _ ↦ .bind (chain_aside trivial fun _ ↦ rfl) fun _ ↦ .pure _

theorem brings_importLink (maps : Maps) (run : RunId) (link : TaskLink) (hrun : base ≤ run) :
    Tx.Within (Brings base (run + 1)) (importLink maps run link) := by
  refine .write fun s hbound ↦ ?_
  split
  · split_ifs with hlinked
    · exact .refl
    · exact .single (.importLink _ (by simpa using hlinked) (Nat.lt_of_succ_le hbound)) hrun
  · exact .refl

theorem brings_importRun (maps : Maps) (board : BoardId) (startedCol : ColumnId) (bundle : RunBundle) :
    Tx.Within (Brings base base) (importRun maps board startedCol bundle) := by
  unfold importRun
  split
  · exact .pure _
  · intro s a s' h hbound
    simp only [Tx.bind_eq_ok, Tx.read_eq_ok, Tx.write_eq_ok, Prod.mk.injEq, Tx.pure_eq_ok] at h
    obtain ⟨_, _, ⟨rfl, rfl⟩, _, _, ⟨-, rfl⟩, _, _, hlinks, -, rfl⟩ := h
    refine Chain.trans ?_
      (Tx.Within.each (fun link _ ↦ brings_importLink maps s.nextRun link hbound) _ _ _ hlinks le_rfl)
    refine .single (.importRun _ rfl _ fun reaction hreaction ↦ ?_) trivial
    split_ifs at hreaction
    · obtain rfl := List.mem_singleton.mp hreaction
      rfl
    · cases hreaction

theorem brings_importLinks (maps : Maps) (bundle : BoardBundle) :
    Tx.Within (Brings base base) (importLinks maps bundle) := by
  refine .bind (.require _ _) fun board ↦ .bind (.each fun task _ ↦ brings_aside fun s ↦ ?_) fun _ ↦
    .bind (.each fun row _ ↦ brings_aside fun s ↦ ?_) fun _ ↦ .bind (reads_requireBoard _).within fun _ ↦
      .bind (.each fun run _ ↦ brings_importRun _ _ _ _) fun _ ↦
        .bind (.each fun slip _ ↦ brings_aside fun s ↦ ?_) fun _ ↦ .pure _
  · split
    · induction task.dependsOn generalizing s with
      | nil => rfl
      | cons dep rest ih =>
        rw [List.foldl_cons]
        refine Aside.trans ?_ (ih _)
        split <;> rfl
    · rfl
  · split <;> rfl
  · split <;> rfl

end Imports

/-- What a file may do. -/
theorem chain_importEverything {outside : Outside} {file : ImportFile} {wholeServer : Bool} {clash : Clash}
    {s s' : Store} {r : Unit} (h : importEverything outside file wholeServer clash s = .ok (r, s')) :
    Chain (Imports s.nextRun) s s' := by
  have hall : Tx.Within (Brings s.nextRun s.nextRun) (importEverything outside file wholeServer clash) := by
    refine .bind (brings_aside fun t ↦ ?_) fun _ ↦ .bind ?_ fun maps ↦ .bind ?_ fun maps ↦
      .bind (.each fun bundle _ ↦ ?_) fun _ ↦ .pure _
    · split_ifs with hfirst
      · rfl
      · clear hfirst
        induction file.users generalizing t with
        | nil => rfl
        | cons person rest ih =>
          refine Aside.trans ?_ (ih _)
          dsimp only
          split_ifs <;> rfl
    · exact within_eachWith (fun maps bundle ↦ brings_of_chain (chain_importBoardRows _ _ _ _)) _ _
    · exact within_eachWith brings_importLinks _ _
    · exact .bind (.require _ _) fun _ ↦ brings_aside fun _ ↦ rfl
  exact hall _ _ _ h le_rfl

/-! ### Updates -/

section Updates

variable {outside : Outside} {board : Board} {s s' : Store} {allowed : Effect → Prop}

/-- What is deleted by hand is told to its run. -/
theorem chain_deleteTask {actor : Uid} {task deleted : Task} (haside : allowed .aside) (hedit : allowed .editTasks)
    (hreacts : ∀ run effect, effect.Reacts run board.finishedCol (.deleted task.id) → allowed effect)
    (hnote : allowed (.note task.id)) (h : deleteTask outside actor board task s = .ok (deleted, s')) :
    Chain allowed s s' := by
  rw [deleteTask, Tx.bind_eq_ok] at h
  obtain ⟨gone, between, hgone, h⟩ := h
  have hid : gone.id = task.id := by
    simp only [softDeleteTask, Tx.bind_eq_ok, Tx.write_eq_ok, Prod.mk.injEq, requireTask_eq_ok] at hgone
    obtain ⟨_, _, ⟨-, rfl⟩, _, _, ⟨-, rfl⟩, _, hfound, rfl, rfl⟩ := hgone
    exact Store.id_of_task hfound
  simp only [Tx.bind_eq_ok, recordEvent_eq_ok, Prod.mk.injEq, Tx.pure_eq_ok] at h
  obtain ⟨_, _, ⟨-, rfl⟩, _, _, htold, -, rfl⟩ := h
  have hsoft := chain_softDeleteTask haside hedit outside task _ _ _ hgone
  refine (hsoft.trans (.single (.aside ?_) haside)).trans
    (chain_afterDelete (hid ▸ hreacts) (hid ▸ hnote) htold)
  rfl

theorem chain_deleteOpen (haside : allowed .aside) (hedit : allowed .editTasks) (actor : Uid) (task : Task) :
    Tx.Within (Chain allowed) (deleteOpen outside board actor task) :=
  .bind (chain_softDeleteTask haside hedit outside task) fun _ ↦ .bind (chain_recordEvent haside _ _ _ _ _) fun _ ↦
    .pure _

theorem chain_cancel (haside : allowed .aside) (hedit : allowed .editTasks) (run : Run)
    (hcancel : allowed (.cancelRun run.id)) (deleteOpenTasks : Bool) (actor : Uid) :
    Tx.Within (Chain allowed) (cancel outside board run deleteOpenTasks actor) := by
  refine .bind (.write fun _ ↦ .single (.cancelRun run.id outside.now) hcancel) fun _ ↦
    .bind (chain_recordEvent haside _ _ _ _ _) fun _ ↦ .ite (fun _ ↦ ?_) fun _ ↦ .pure _
  exact .bind (.read _) fun _ ↦ .each fun task _ ↦ chain_deleteOpen haside hedit actor task

theorem chain_stamp (haside : allowed .aside) (hadd : allowed .addTask) (actor : Uid) (column : ColumnId)
    (anchors : TemplateId → Option Instant) (rootStart : Instant) (id : TemplateId) :
    Tx.Within (Chain allowed) (stamp outside actor board column anchors rootStart id) := by
  refine .bind (.read _) fun found ↦ ?_
  cases found with
  | none => exact .pure _
  | some template => exact .bind (chain_createTask haside hadd _ _ _ _ _ _) fun _ ↦ .pure _

theorem chain_createFromTemplate (haside : allowed .aside) (hadd : allowed .addTask) (actor : Uid)
    (template : TemplateId) (column : ColumnId) (draft : TaskDraft) :
    Tx.Within (Chain allowed) (createFromTemplate outside actor board template column draft) :=
  .bind (.read _) fun _ ↦ .bind (.each fun id _ ↦ chain_stamp haside hadd actor column _ _ id) fun _ ↦
    .bind (reads_checkDeps _ _ _).within fun _ ↦ .bind (reads_checkPrintRecipients _).within fun _ ↦
      chain_createTask haside hadd _ _ _ _ _ _

theorem chain_moveTaskBy {actor : Option Uid} {task moved : Task} {destination : ColumnId} {position : Option ℤ}
    {overrideDeps : Bool} {answer : Option Text}
    (hreacts : ∀ run event effect, effect.Reacts run board.finishedCol event → allowed effect)
    (hstart : ∀ run, allowed (.startRun run)) (hplace : allowed (.place task.id destination))
    (hnote : allowed (.note task.id))
    (h : moveTaskBy outside actor board task destination position overrideDeps answer s = .ok (moved, s')) :
    Chain allowed s s' := by
  obtain ⟨plan, p, between, loaded, effects, -, hdestination, hbeside, -, hid, hafter⟩ := moveTaskBy_spec h
  have hput := Change.place (s := s) task.id plan.destination (movedRow plan p) (fun _ ↦ rfl) (fun _ ↦ rfl)
    (fun _ ↦ rfl) fun _ ↦ ⟨rfl, rfl⟩
  exact ((Chain.single hput (hdestination ▸ hplace)).trans
    (.single (.aside hbeside) (hreacts 0 .created .aside trivial))).trans
      (chain_afterMove hreacts hstart (hid ▸ hnote) hafter)

theorem chain_bringBack {actor : Uid} {task restored : Task} {destination : ColumnId} (haside : allowed .aside)
    (hplace : allowed (.place task.id destination)) (hnote : allowed (.note task.id))
    (h : bringBack outside actor board task destination s = .ok (restored, s')) : Chain allowed s s' := by
  rw [bringBack, Tx.bind_eq_ok] at h
  obtain ⟨back, between, hback, h⟩ := h
  have hid : back.id = task.id := by
    simp only [restoreTask, Tx.bind_eq_ok, Tx.write_eq_ok, Prod.mk.injEq, requireTask_eq_ok] at hback
    obtain ⟨_, _, -, _, _, -, _, _, -, _, _, -, _, hfound, rfl, rfl⟩ := hback
    exact Store.id_of_task hfound
  simp only [Tx.bind_eq_ok, recordEvent_eq_ok, Prod.mk.injEq, Tx.pure_eq_ok] at h
  obtain ⟨_, noted, ⟨-, hnoted⟩, _, _, htold, -, rfl⟩ := h
  have hbeside : Aside between noted := hnoted ▸ rfl
  exact ((chain_restoreTask haside task destination hplace outside _ _ _ hback).trans
    (.single (.aside hbeside) haside)).trans (chain_afterRestore back (hid ▸ hnote) _ _ _ htold)

/-- Every update is a chain of the changes it may make. -/
theorem chain_update {α : Type} {update : Update α} {a : α} (hids : s.Numbered)
    (h : update.work outside s = .ok (a, s')) : Chain (update.Allows s) s s' := by
  have hwithin (hall : Tx.Within (Chain (update.Allows s)) (update.work outside)) : Chain (update.Allows s) s s' :=
    hall _ _ _ h
  cases update with
  | createBoard owner req => exact hwithin (chain_createBoard trivial trivial _ _ _)
  | saveBoard actor before req => exact hwithin (chain_saveBoard trivial trivial _ _ _ _ ⟨rfl, rfl⟩)
  | removeBoard actor board => exact hwithin (chain_removeBoard trivial board (by exact rfl) _ _)
  | appendColumn actor board name =>
    exact hwithin (.bind (chain_addColumn board (by exact rfl) name) (fun _ ↦ chain_recordEvent trivial _ _ _ _ _))
  | nameColumn actor board column name =>
    exact hwithin (.bind (chain_renameColumn trivial board column name)
      (fun _ ↦ chain_recordEvent trivial _ _ _ _ _))
  | reorderColumns board order => exact hwithin (chain_reorderColumns trivial board order)
  | setColumnSort column sortByDue => exact hwithin (chain_setColumnSort trivial column sortByDue)
  | dropColumn actor board plan =>
    exact hwithin (.bind (chain_removeColumn outside board plan (fun _ hmove ↦ ⟨rfl, hmove⟩) ⟨rfl, rfl⟩ rfl)
      (fun _ ↦ chain_recordEvent trivial _ _ _ _ _))
  | joinBoard actor board uid =>
    exact hwithin (.bind (reads_checkKnown _ _).within (fun _ ↦ .bind (chain_addMember trivial _ _) fun _ ↦
      chain_recordEvent trivial _ _ _ _ _))
  | leaveBoard actor board uid unassign =>
    exact hwithin (.bind (.read _) (fun _ ↦ .bind (.check _ _) fun _ ↦
      .bind (chain_unassignOnBoard trivial trivial _ _) fun _ ↦ .bind (chain_removeMember trivial _ _) fun _ ↦
        .bind (chain_recordEvent trivial _ _ _ _ _) fun _ ↦ .pure _))
  | setAdmin uid isAdmin =>
    exact hwithin (.bind (reads_requireUser _).within (fun _ ↦ chain_aside trivial fun _ ↦ rfl))
  | updateTimezone uid timezone => exact hwithin (chain_aside trivial (fun _ ↦ rfl))
  | login uid hostTz forceAdmin =>
    refine Tx.Within.bind (chain_aside trivial fun s ↦ ?_) (fun _ ↦ (reads_requireUser _).within) _ _ _ h
    split_ifs <;> rfl
  | makeTask actor board column draft =>
    exact hwithin (.bind (reads_checkDeps _ _ _).within (fun _ ↦ .bind (reads_checkPrintRecipients _).within
      fun _ ↦ chain_createTask trivial trivial _ _ _ _ _ _))
  | saveTask actor board task draft =>
    exact hwithin (.bind (.lift _) (fun _ ↦ .bind (reads_checkDeps _ _ _).within fun _ ↦
      .bind (reads_checkPrintRecipients _).within fun _ ↦ .bind (chain_updateTask trivial task (by exact rfl) _ _) fun _ ↦
        .bind (chain_recordEvent trivial _ _ _ _ _) fun _ ↦ .pure _))
  | moveTaskBy actor board task destination position overrideDeps answer =>
    refine chain_moveTaskBy (fun run event effect heffect ↦ ?_) (fun _ ↦ trivial) ⟨rfl, rfl⟩ rfl h
    cases effect <;> first | exact ⟨run, event, heffect⟩ | exact heffect.elim
  | giveAnswer board task answer =>
    obtain ⟨_, _, hgiven, h⟩ := Tx.bind_eq_ok.mp h
    obtain rfl := reads_requireTask _ _ _ _ h
    exact chain_answerTask (fun run canonical effect heffect ↦ ⟨run, _, heffect, by simp⟩) hgiven
  | tickItem actor board task index done =>
    exact hwithin (.bind (chain_setChecklistItem trivial task index done) (fun _ ↦
      .bind (chain_recordEvent trivial _ _ _ _ _) fun _ ↦ .pure _))
  | deleteTask actor board task =>
    refine chain_deleteTask ⟨0, .created, trivial, by simp⟩ ⟨0, .created, trivial, by simp⟩
      (fun run effect heffect ↦ ?_) rfl h
    cases effect <;> first | exact ⟨run, _, heffect, by simp⟩ | exact heffect.elim
  | purge actor board task =>
    exact hwithin (.bind (chain_recordEvent trivial _ _ _ _ _)
      (fun _ ↦ .write fun _ ↦ .single (.dropTasks _) fun _ ↦ rfl))
  | bringBack actor board task destination => exact chain_bringBack trivial ⟨rfl, rfl⟩ rfl h
  | setExcludeFromStats task excluded => exact hwithin (chain_setExcludeFromStats trivial task excluded)
  | endRepeat actor board task =>
    exact hwithin (.bind (chain_stopRepeat trivial trivial task) (fun _ ↦
      .bind (chain_recordEvent trivial _ _ _ _ _) fun _ ↦ .pure _))
  | noteScan actor board task action => exact hwithin (chain_recordEvent trivial _ _ _ _ _)
  | makeTemplate actor board name draft options => exact hwithin (chain_makeTemplate trivial _ _ _ _ _ _)
  | saveTemplate actor board template name draft options =>
    exact hwithin (chain_saveTemplate trivial _ _ _ _ _ _ _)
  | dropTemplate actor board template => exact hwithin (chain_dropTemplate trivial _ _ _ _)
  | createFromTemplate actor board template column draft =>
    exact hwithin (chain_createFromTemplate trivial trivial _ _ _ _)
  | makeProgram actor board draft => exact hwithin (chain_makeProgram trivial _ _ _ _)
  | saveProgram actor board program draft => exact hwithin (chain_saveProgram trivial _ _ _ _ _)
  | dropProgram actor board program => exact hwithin (chain_dropProgram trivial trivial _ _ _ _)
  | startProgram actor board program column startAt fanOut =>
    simp only [Update.work, startProgram, Tx.bind_eq_ok, Tx.pure_eq_ok, Prod.mk.injEq] at h
    obtain ⟨_, _, hchecked, _, _, hstarter, _, _, hstart, -, rfl⟩ := h
    obtain rfl := reads_checkProgram _ _ _ _ _ hchecked
    obtain rfl := reads_requireUser _ _ _ _ hstarter
    refine chain_start hids ⟨s.nextRun, le_rfl, trivial⟩ ⟨s.nextRun, le_rfl, trivial⟩
      (fun run effect hle heffect ↦ ?_) (fun run hcolumn hboard hroot ↦ ⟨hcolumn, hboard, hroot⟩) hstart
    cases effect <;> first | exact ⟨run, hle, heffect⟩ | exact heffect.elim
  | cancel actor board run deleteOpenTasks => exact hwithin (chain_cancel trivial trivial run (by exact rfl) _ _)
  | archive board task =>
    exact hwithin (.bind (chain_archiveTask trivial _ task) (fun _ ↦
      .bind (chain_recordEvent trivial _ _ _ _ _) fun _ ↦ .pure _))
  | advanceRepeat task next => exact hwithin (chain_advanceRepeat trivial task next)
  | spawnRepeat board firstCol task =>
    exact hwithin (.bind (chain_createTask trivial trivial _ _ _ _ _ _) (fun _ ↦
      .bind (chain_recordEvent trivial _ _ _ _ _) fun _ ↦ .bind (chain_advanceRepeat trivial _ _) fun _ ↦ .pure _))
  | importEverything file wholeServer clash =>
    refine (chain_importEverything h).mono fun effect heffect ↦ ?_
    cases effect <;> exact heffect

/-- Every section leaves ids in order. -/
theorem numbered_section {α : Type} (body : Section α) (input : Outside) (hids : s.Numbered) :
    (semantics.run body input s).2.Numbered := by
  cases body with
  | read query => rwa [snd_run_read]
  | write update =>
    rcases snd_commit (update.work input) s with hsame | ⟨a, hrun⟩
    · exact Eq.mpr (congrArg Store.Numbered hsame) hids
    · exact hids.chain (chain_update hids hrun)

end Updates

end Taskologic.Daemon
