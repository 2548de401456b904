import Taskologic.Daemon.BoardRights
import Taskologic.Daemon.EngineRules
import Taskologic.Daemon.Requests

/-!
# Sessions and the rights of administrators

A connection logs its user in and from then on carries a copy of their right: `Session`. Each of its
requests is decided by that copy. `Connected` is the daemon with its sessions, and an `Action` is a login, a
request that a session sends, the start of something without a session, or one section of whatever is under
way.

Once `SetAdmin` has been answered for somebody, whoever logs in as them carries what it said, until it is
said otherwise: `Connected.rightsFollow_opened`. The configuration names people who are administrators whatever the
store says, and they are so from the next login on. A session that was open before keeps its copy:
`Connected.not_rightsFollow_open`.

Scope. A session that is closed sends nothing any more, which is a run like any other.
-/

set_option autoImplicit false
set_option relaxedAutoImplicit false

namespace Taskologic.Daemon

open Taskologic.Core Taskologic.Library

/-! ### Sessions -/

/-- The authenticated connection a request came in on. -/
structure Session where
  uid : Uid
  isAdmin : Bool
  deriving DecidableEq, Repr

def Session.actor (session : Session) : Actor := ⟨session.uid, session.isAdmin⟩

/-- The daemon with its sessions, in the order in which they were opened. -/
structure Connected : Type 1 where
  server : Server Response
  sessions : List Session

/-- A daemon nobody is connected to. -/
def Connected.fresh (s : Store) : Connected := ⟨⟨s, []⟩, []⟩

inductive Action where
  | connect (uid : Uid) (hostTz : Tz)
  | submit (session : ℕ) (req : Request)
  | tick
  | importFile (file : ImportFile) (wholeServer : Bool) (clash : Clash)
  /-- The next section of something that is under way. -/
  | turn (i : ℕ) (outside : Outside)

namespace Connected

/-- Something more is under way. -/
def begin (c : Connected) (call : Call Response) : Connected :=
  { c with server := { c.server with threads := c.server.threads ++ [call] } }

/-- Sets a connection up: the login is one section, and the session gets the right it finds. -/
def connect (alwaysAdmin : List Uid) (c : Connected) (uid : Uid) (hostTz : Tz) : Connected :=
  match commit (login uid hostTz (alwaysAdmin.contains uid)) c.server.state with
  | (.ok user, s) => ⟨{ c.server with state := s }, c.sessions ++ [⟨uid, user.isAdmin⟩]⟩
  | (.error _, s) => { c with server := { c.server with state := s } }

def act (alwaysAdmin : List Uid) (c : Connected) : Action → Connected
  | .connect uid hostTz => c.connect alwaysAdmin uid hostTz
  | .submit k req =>
    match c.sessions[k]? with
    | some session => c.begin (handle session.actor req)
    | none => c
  | .tick => c.begin Job.tick.call
  | .importFile file wholeServer clash => c.begin (Job.importFile file wholeServer clash).call
  | .turn i outside => { c with server := c.server.turn semantics i outside }

/-- What an action grants or revokes: the section of a `SetAdmin` that is answered well. -/
def grants (c : Connected) : Action → Option (Uid × Bool)
  | .turn i _ =>
    match c.server.threads[i]? with
    | some (.lock (.write (.setAdmin uid isAdmin)) _) =>
      match commit (setAdmin uid isAdmin) c.server.state with
      | (.ok _, _) => some (uid, isAdmin)
      | (.error _, _) => none
    | _ => none
  | _ => none

end Connected

/-! ### Requests log nobody in -/

/-- The update of a login. -/
def Update.logsIn {α : Type} : Update α → Bool
  | .login _ _ _ => true
  | _ => false

def Section.logsIn {α : Type} : Section α → Bool
  | .read _ => false
  | .write update => update.logsIn

/-- Whatever is under way without a connection logs nobody in. -/
abbrev NoLogin {ρ : Type} (call : Call ρ) : Prop := call.Only fun _ body ↦ body.logsIn = false

theorem noLogin_ask {α : Type} (query : Query α) : NoLogin (ask query) := Thread.only_call.mpr rfl

theorem noLogin_run {α : Type} {update : Update α} (h : update.logsIn = false) : NoLogin (run update) :=
  Thread.only_call.mpr h

theorem Routine.noLogin {ρ : Type} {call : Call ρ} (h : Routine call) : NoLogin call := by
  refine h.mono fun α body hbody ↦ ?_
  cases body with
  | read query => rfl
  | write update => cases update <;> first | rfl | cases hbody

/-- No request logs anybody in. -/
theorem noLogin_handle (actor : Actor) (req : Request) : NoLogin (handle actor req) := by
  by_cases hpurge : ∃ id, req = .purgeTask id
  · obtain ⟨id, rfl⟩ := hpurge
    exact .bind (routine_loadTask _ _).noLogin fun _ ↦ .bind (Thread.only_done _) fun _ ↦
      .bind Thread.only_check fun _ ↦ .bind (noLogin_run rfl) fun _ ↦ trivial
  · exact (routine_handle actor req fun id hreq ↦ hpurge ⟨id, hreq⟩).noLogin

/-- A pass of the scheduler logs nobody in. -/
theorem noLogin_tickOnce : NoLogin tickOnce := by
  have harchive : NoLogin archiveFinished := .bind (noLogin_ask _) fun due ↦
    .bind (.each (fun _ ↦ .bind (noLogin_ask _) fun _ ↦ noLogin_run rfl) due) fun _ ↦ trivial
  have hpurge : NoLogin purgeDeleted := .bind (noLogin_ask _) fun due ↦
    .bind (.each (fun _ ↦ .bind (noLogin_ask _) fun _ ↦ noLogin_run rfl) due) fun _ ↦ trivial
  exact .bind harchive fun _ ↦ .bind hpurge fun _ ↦ .bind routine_fireRepeats.noLogin fun _ ↦
    routine_autoStart.noLogin

/-! ### What happens to the right that is stored -/

/-- Somebody who is known stays so, with the right they have. -/
def FlagStays (uid : Uid) (s s' : Store) : Prop :=
  ∀ user, s.user uid = some user → ∃ user', s'.user uid = some user' ∧ user'.isAdmin = user.isAdmin

instance (uid : Uid) : Std.Refl (FlagStays uid) := ⟨fun _ user h ↦ ⟨user, h, rfl⟩⟩

instance (uid : Uid) : IsTrans Store (FlagStays uid) where
  trans _ _ _ hone htwo user huser := by
    obtain ⟨user', huser', hsame⟩ := hone user huser
    obtain ⟨user'', huser'', hsame'⟩ := htwo user' huser'
    exact ⟨user'', huser'', hsame'.trans hsame⟩

theorem flagStays_of_users {uid : Uid} {s s' : Store} (h : s'.users = s.users) : FlagStays uid s s' := by
  intro user huser
  refine ⟨user, ?_, rfl⟩
  rw [Store.user, h]
  exact huser

/-- The people of a store stay as they are. -/
abbrev SameUsers : Store → Store → Prop := Tx.Keeps Store.users

theorem users_writeRelations (outside : Outside) (task : TaskId) (draft : TaskDraft) :
    Tx.Within SameUsers (writeRelations outside task draft) := by
  refine .bind (reads_demand _ _).within fun _ ↦ .bind (.write fun _ ↦ rfl) fun _ ↦
    .bind (reads_demand _ _).within fun _ ↦ .bind (.write fun _ ↦ rfl) fun _ ↦ ?_
  cases draft.repeats with
  | none => exact .write fun _ ↦ rfl
  | some spec => exact .bind (.lift _) fun _ ↦ .write fun _ ↦ rfl

theorem users_createTask (outside : Outside) (board : Board) (column : ColumnId) (draft : TaskDraft)
    (creator : Uid) (fromTemplate : Option TemplateId) :
    Tx.Within SameUsers (createTask outside board column draft creator fromTemplate) :=
  .bind (.lift _) fun _ ↦ .bind (.read _) fun _ ↦ .bind (.read _) fun _ ↦ .bind (.require _ _) fun _ ↦
    .bind (reads_nextPosition _).within fun _ ↦ .bind (reads_demand _ _).within fun _ ↦
      .bind (.write fun _ ↦ rfl) fun _ ↦ .bind (users_writeRelations _ _ _) fun _ ↦
        .bind (.write fun _ ↦ rfl) fun _ ↦ (reads_requireTask _).within

/-- Programs leave the people alone. -/
theorem users_engine (outside : Outside) (board : Board) : EngineKeeps outside board SameUsers where
  runs _ _ h := congrArg Kept.users h
  slips _ _ := rfl
  rows _ _ _ _ := rfl
  make _ _ _ _ := users_createTask _ _ _ _ _ _

theorem users_softDeleteTask (outside : Outside) (task : Task) :
    Tx.Within SameUsers (softDeleteTask outside task) :=
  .bind (.write fun _ ↦ rfl) fun _ ↦ .bind (.write fun _ ↦ rfl) fun _ ↦ (reads_requireTask _).within

/-- The update is about the people. -/
def Update.aboutUsers {α : Type} : Update α → Bool
  | .setAdmin _ _ | .updateTimezone _ _ | .login _ _ _ | .importEverything _ _ _ => true
  | _ => false

theorem users_update {α : Type} (outside : Outside) (update : Update α) (h : update.aboutUsers = false) :
    Tx.Within SameUsers (update.work outside) := by
  have hwrite {f : Store → Store} (hf : ∀ s, (f s).users = s.users) :
      Tx.Within SameUsers (Tx.write f : Work Unit) := .write hf
  cases update with
  | setAdmin uid isAdmin => cases h
  | updateTimezone uid timezone => cases h
  | login uid hostTz forceAdmin => cases h
  | importEverything file wholeServer clash => cases h
  | moveTaskBy actor board task destination position overrideDeps answer =>
    exact (users_engine _ _).moveTaskBy _ _ _ _ _ _
  | giveAnswer board task answer => exact (users_engine _ _).plan.giveAnswer _ _
  | startProgram actor board program column startAt fanOut =>
    exact (users_engine _ _).plan.startProgram _ _ _ _ _
  | deleteTask actor board task => exact (users_engine _ _).plan.deleteTask _ _ (users_softDeleteTask _ _)
  | cancel actor board run deleteOpenTasks =>
    exact (users_engine _ board).plan.cancel _ _ fun task ↦ users_softDeleteTask _ _
  | bringBack actor board task destination =>
    refine .bind ?_ fun _ ↦ .bind (.write fun _ ↦ rfl) fun _ ↦
      .bind ((users_engine outside board).plan.afterRestore _) fun _ ↦ .pure _
    exact .bind (reads_nextPosition _).within fun _ ↦ .bind (reads_demand _ _).within fun _ ↦
      .bind (.write fun _ ↦ rfl) fun _ ↦ .bind (.write fun _ ↦ rfl) fun _ ↦ (reads_requireTask _).within
  | saveBoard actor before req =>
    have hupdate : Tx.Within SameUsers (updateBoard before req) := by
      intro s a s' h
      rw [updateBoard_eq_ok h]
      rfl
    have hcarry (after : Board) (uid : Uid) : Tx.Within SameUsers (carryOver outside actor after.id uid) :=
      .bind (hwrite fun _ ↦ rfl) fun _ ↦ hwrite fun _ ↦ rfl
    refine .bind hupdate fun after ↦ ?_
    refine .ite (fun _ ↦ .bind (.read _) fun _ ↦ .bind (.each fun uid _ ↦ hcarry after uid) fun _ ↦ ?_)
      fun _ ↦ ?_
    all_goals exact .bind (hwrite fun _ ↦ rfl) fun _ ↦ (reads_requireBoard _).within
  | reorderColumns board order =>
    refine .bind (.check _ _) fun _ ↦ hwrite fun s ↦ ?_
    induction order.zipIdx generalizing s with
    | nil => rfl
    | cons entry rest ih => exact ih _
  | dropColumn actor board plan =>
    have hmove : Tx.Within SameUsers (moveColumnTasks outside.sweep plan.removed plan.moveTasksTo) := by
      cases plan.moveTasksTo with
      | none => exact .pure _
      | some destination =>
        exact .bind (reads_nextPosition _).within fun _ ↦ .bind (reads_demand _ _).within fun _ ↦
          hwrite fun _ ↦ rfl
    refine .bind ?_ fun _ ↦ hwrite fun _ ↦ rfl
    exact .bind hmove fun _ ↦ .bind (hwrite fun _ ↦ rfl) fun _ ↦ .bind (reads_demand _ _).within fun _ ↦
      hwrite fun _ ↦ rfl
  | createFromTemplate actor board template column draft =>
    have hstamp (anchors : TemplateId → Option Instant) (rootStart : Instant) (id : TemplateId) :
        Tx.Within SameUsers (stamp outside actor board column anchors rootStart id) := by
      refine .bind (.read _) fun found ↦ ?_
      cases found with
      | none => exact .pure _
      | some template => exact .bind (users_createTask _ _ _ _ _ _) fun _ ↦ .pure _
    exact .bind (.read _) fun _ ↦ .bind (.each fun id _ ↦ hstamp _ _ id) fun _ ↦
      .bind (reads_checkDeps _ _ _).within fun _ ↦ .bind (reads_checkPrintRecipients _).within fun _ ↦
        users_createTask _ _ _ _ _ _
  | advanceRepeat task next => cases next <;> exact hwrite fun _ ↦ rfl
  | _ =>
    repeat' first
      | exact .pure _
      | exact .read _
      | exact .require _ _
      | exact .lift _
      | exact .check _ _
      | exact (reads_demand _ _).within
      | exact (reads_nextPosition _).within
      | exact (reads_requireUser _).within
      | exact (reads_requireTask _).within
      | exact (reads_requireBoard _).within
      | exact (reads_requireTemplate _).within
      | exact (reads_requireProgram _).within
      | exact (reads_checkDeps _ _ _).within
      | exact (reads_checkPrintRecipients _).within
      | exact (reads_checkProgram _ _).within
      | exact (reads_templateInput _ _ _ _ _).within
      | exact users_createTask _ _ _ _ _ _
      | exact users_writeRelations _ _ _
      | exact hwrite fun _ ↦ rfl
      | refine .bind ?_ fun _ ↦ ?_

/-! ### Updates of people -/

theorem user_map_ite (f : User → User) (hf : ∀ u, (f u).uid = u.uid) (s : Store) (uid other : Uid) :
    ({ s with users := s.users.map fun user ↦ if user.uid = uid then f user else user } : Store).user
      other = if other = uid then (s.user other).map f else s.user other :=
  find?_map_ite hf s.users uid other

theorem flagStays_updateTimezone (uid other : Uid) (timezone : Tz) :
    Tx.Within (FlagStays uid) (updateTimezone other timezone) := by
  refine .write fun s user huser ↦ ?_
  rw [user_map_ite (fun user ↦ { user with timezone }) fun _ ↦ rfl, huser]
  split_ifs
  · exact ⟨_, rfl, rfl⟩
  · exact ⟨_, rfl, rfl⟩

/-- What a grant leaves. -/
theorem setAdmin_spec {other : Uid} {isAdmin : Bool} {s s' : Store} {r : Unit}
    (h : setAdmin other isAdmin s = .ok (r, s')) (uid : Uid) :
    if uid = other then ∃ user, s'.user uid = some user ∧ user.isAdmin = isAdmin else FlagStays uid s s' := by
  simp only [setAdmin, requireUser, Tx.bind_eq_ok, Tx.read_eq_ok, Tx.require_eq_ok, Tx.write_eq_ok,
    Prod.mk.injEq] at h
  obtain ⟨_, _, ⟨_, _, ⟨rfl, rfl⟩, user, huser, -, rfl⟩, -, rfl⟩ := h
  split_ifs with hsame
  · subst hsame
    refine ⟨{ user with isAdmin }, ?_, rfl⟩
    rw [user_map_ite (fun user ↦ { user with isAdmin }) fun _ ↦ rfl, if_pos rfl, huser]
    rfl
  · intro user huser
    rw [user_map_ite (fun user ↦ { user with isAdmin }) fun _ ↦ rfl, if_neg hsame]
    exact ⟨user, huser, rfl⟩

/-- What a login finds and leaves. -/
theorem login_spec {other : Uid} {hostTz : Tz} {force : Bool} {user : User} {s s' : Store}
    (h : login other hostTz force s = .ok (user, s')) :
    s'.user other = some user ∧
      (∀ old, s.user other = some old → user.isAdmin = (old.isAdmin || force)) ∧
        ∀ uid, uid ≠ other → FlagStays uid s s' := by
  simp only [login, requireUser, Tx.bind_eq_ok, Tx.read_eq_ok, Tx.require_eq_ok, Tx.write_eq_ok,
    Prod.mk.injEq] at h
  obtain ⟨_, _, ⟨-, rfl⟩, _, _, ⟨rfl, rfl⟩, _, hfound, rfl, rfl⟩ := h
  refine ⟨hfound, ?_, ?_⟩
  · intro old hold
    rw [hold, Option.isSome_some, if_pos rfl, user_map_ite (fun user ↦ { user with isAdmin := user.isAdmin || force }) fun _ ↦ rfl, if_pos rfl, hold] at hfound
    obtain rfl := Option.some.inj hfound
    rfl
  · intro uid hother user huser
    split_ifs
    · rw [user_map_ite (fun user ↦ { user with isAdmin := user.isAdmin || force }) fun _ ↦ rfl, if_neg hother]
      exact ⟨user, huser, rfl⟩
    · refine ⟨user, ?_, rfl⟩
      rw [Store.user, List.find?_append]
      rw [Store.user] at huser
      rw [huser]
      rfl

/-- People of a file are added, nobody who is known changes. -/
theorem flagStays_importPeople (uid : Uid) (people : List User) (wholeServer : Bool) :
    Tx.Within (FlagStays uid) (importPeople people wholeServer) := by
  refine .write fun s ↦ ?_
  split_ifs with hfirst
  · exact refl_of _ _
  · clear hfirst
    induction people generalizing s with
    | nil => exact refl_of _ _
    | cons person rest ih =>
      refine IsTrans.trans _ _ _ ?_ (ih _)
      dsimp only
      split_ifs
      · exact refl_of _ _
      · intro user huser
        refine ⟨user, ?_, rfl⟩
        rw [Store.user] at huser ⊢
        rw [List.find?_append, huser]
        rfl

/-! ### Files -/

theorem users_importBoardRows (outside : Outside) (clash : Clash) (maps : Maps) (bundle : BoardBundle) :
    Tx.Within SameUsers (importBoardRows outside clash maps bundle) := by
  have hwrite {f : Store → Store} (hf : ∀ s, (f s).users = s.users) :
      Tx.Within SameUsers (Tx.write f : Work Unit) := .write hf
  refine .bind (.read _) fun board ↦ .bind ?_ fun maps ↦ .bind (.each fun template _ ↦ ?_) fun _ ↦
    .bind (hwrite fun s ↦ ?_) fun _ ↦ .bind (.each fun program _ ↦ ?_) fun _ ↦
      .bind (.each fun task _ ↦ ?_) fun _ ↦ .pure _
  · exact .bind (reads_demand _ _).within fun _ ↦ .bind (.read _) fun _ ↦ .bind (.read _) fun _ ↦
      .bind (reads_keptShortId _ _ _ _ _ _).within fun _ ↦ .bind (.require _ _) fun _ ↦
        .bind (.require _ _) fun _ ↦ .bind (.require _ _) fun _ ↦ .bind (hwrite fun _ ↦ rfl) fun _ ↦ .pure _
  · exact .bind (.read _) fun _ ↦ .bind (.read _) fun _ ↦
      .bind (reads_keptShortId _ _ _ _ _ _).within fun _ ↦ .bind (hwrite fun _ ↦ rfl) fun _ ↦ .pure _
  · induction bundle.templates generalizing s with
    | nil => rfl
    | cons template rest ih =>
      rw [List.foldl_cons, ih]
      split
      · split_ifs <;> rfl
      · rfl
  · exact .bind (.read _) fun _ ↦ .bind (.read _) fun _ ↦
      .bind (reads_keptShortId _ _ _ _ _ _).within fun _ ↦ .bind (hwrite fun _ ↦ rfl) fun _ ↦ .pure _
  · refine .bind (.require _ _) fun column ↦ .bind (.read _) fun id ↦ .bind (.read _) fun taken ↦
      .ite (fun _ ↦ .bind (.pure _) fun _ ↦ ?_) fun _ ↦ .bind (.require _ _) fun _ ↦ ?_
    all_goals exact .bind (hwrite fun _ ↦ rfl) fun _ ↦ .pure _

theorem users_importLinks (maps : Maps) (bundle : BoardBundle) :
    Tx.Within SameUsers (importLinks maps bundle) := by
  have hwrite {f : Store → Store} (hf : ∀ s, (f s).users = s.users) :
      Tx.Within SameUsers (Tx.write f : Work Unit) := .write hf
  refine .bind (.require _ _) fun board ↦ .bind (.each fun task _ ↦ hwrite fun s ↦ ?_) fun _ ↦
    .bind (.each fun row _ ↦ hwrite fun s ↦ ?_) fun _ ↦ .bind (reads_requireBoard _).within fun _ ↦
      .bind (.each fun run _ ↦ ?_) fun _ ↦ .bind (.each fun slip _ ↦ hwrite fun s ↦ ?_) fun _ ↦ .pure _
  · split
    · induction task.dependsOn generalizing s with
      | nil => rfl
      | cons dep rest ih =>
        rw [List.foldl_cons, ih]
        split <;> rfl
    · rfl
  · split <;> rfl
  · unfold importRun
    split
    · exact .pure _
    · refine .bind (.read _) fun id ↦ .bind (hwrite fun _ ↦ rfl) fun _ ↦
        .bind (.each fun link _ ↦ hwrite fun s ↦ ?_) fun _ ↦ .pure _
      split
      · split_ifs <;> rfl
      · rfl
  · split <;> rfl

/-- A file changes the right of nobody who is known. -/
theorem flagStays_importEverything (uid : Uid) (outside : Outside) (file : ImportFile) (wholeServer : Bool)
    (clash : Clash) :
    Tx.Within (FlagStays uid) (importEverything outside file wholeServer clash) := by
  have hstay {α : Type} {work : Work α} (h : Tx.Within SameUsers work) : Tx.Within (FlagStays uid) work :=
    h.mono fun _ _ ↦ flagStays_of_users
  refine .bind (flagStays_importPeople _ _ _) fun _ ↦ .bind (hstay ?_) fun maps ↦ .bind (hstay ?_) fun maps ↦
    .bind (.each fun bundle _ ↦ hstay ?_) fun _ ↦ .pure _
  · exact within_eachWith (users_importBoardRows _ _) _ _
  · exact within_eachWith users_importLinks _ _
  · exact .bind (.require _ _) fun _ ↦ .write fun _ ↦ rfl

/-- The update writes somebody's right. -/
def Update.setsFlagOf (uid : Uid) {α : Type} : Update α → Bool
  | .setAdmin other _ | .login other _ _ => other == uid
  | _ => false

theorem flagStays_update {α : Type} (uid : Uid) (outside : Outside) (update : Update α)
    (h : update.setsFlagOf uid = false) : Tx.Within (FlagStays uid) (update.work outside) := by
  cases hpeople : update.aboutUsers with
  | false => exact (users_update outside update hpeople).mono fun _ _ ↦ flagStays_of_users
  | true =>
    cases update with
    | setAdmin other isAdmin =>
      intro s a s' hrun
      have hspec := setAdmin_spec hrun uid
      rwa [if_neg fun hsame ↦ by simp [Update.setsFlagOf, hsame] at h] at hspec
    | updateTimezone other timezone => exact flagStays_updateTimezone _ _ _
    | login other hostTz forceAdmin =>
      intro s a s' hrun
      exact (login_spec hrun).2.2 uid fun hsame ↦ by simp [Update.setsFlagOf, hsame] at h
    | importEverything file wholeServer clash => exact flagStays_importEverything _ _ _ _ _
    | _ => cases hpeople

/-! ### Runs -/

namespace Connected

variable {alwaysAdmin : List Uid} {c : Connected} {uid : Uid} {isAdmin : Bool}

/-- Nothing among the actions grants or revokes somebody's right. -/
def LeavesAlone (alwaysAdmin : List Uid) (uid : Uid) : Connected → List Action → Prop
  | _, [] => True
  | c, action :: rest => (∀ isAdmin, c.grants action ≠ some (uid, isAdmin)) ∧
      LeavesAlone alwaysAdmin uid (c.act alwaysAdmin action) rest

/-- A grant is a section of `SetAdmin` that succeeds. -/
theorem grants_eq_some {action : Action} : c.grants action = some (uid, isAdmin) ↔
    ∃ i outside next, action = .turn i outside ∧
      c.server.threads[i]? = some (.lock (.write (.setAdmin uid isAdmin)) next) ∧
        ∃ a s', setAdmin uid isAdmin c.server.state = .ok (a, s') := by
  constructor
  · intro h
    cases action with
    | turn i outside =>
      unfold grants at h
      dsimp only at h
      split at h
      · rename_i other isAdmin' next hthread
        split at h
        · rename_i a s' hcommit
          obtain ⟨rfl, rfl⟩ := Prod.ext_iff.mp (Option.some.inj h)
          exact ⟨i, outside, next, rfl, hthread, a, s', commit_eq_ok hcommit⟩
        · cases h
      · cases h
    | _ => cases h
  · rintro ⟨i, outside, next, rfl, hthread, a, s', hrun⟩
    simp [grants, hthread, commit, hrun]

/-- Nothing under way logs anybody in. -/
def NoLogins (c : Connected) : Prop := ∀ thread ∈ c.server.threads, NoLogin thread

theorem noLogins_begin {call : Call Response} (h : c.NoLogins) (hcall : NoLogin call) :
    (c.begin call).NoLogins := by
  intro thread hthread
  rcases List.mem_append.mp hthread with hold | hnew
  · exact h thread hold
  · rw [List.mem_singleton.mp hnew]
    exact hcall

theorem noLogins_act (h : c.NoLogins) (action : Action) : (c.act alwaysAdmin action).NoLogins := by
  cases action with
  | connect uid hostTz =>
    change (c.connect alwaysAdmin uid hostTz).NoLogins
    unfold connect
    split <;> exact h
  | submit k req =>
    unfold act
    dsimp only
    split
    · exact noLogins_begin h (noLogin_handle _ _)
    · exact h
  | tick => exact noLogins_begin h (.bind noLogin_tickOnce fun _ ↦ Thread.only_pure _)
  | importFile file wholeServer clash =>
    exact noLogins_begin h (.bind (noLogin_run rfl) fun _ ↦ Thread.only_pure _)
  | turn i outside => exact Pool.only_turn h

/-- What is stored of somebody since a grant: the right it gave, or that of an administrator by
configuration. -/
def Stored (alwaysAdmin : List Uid) (uid : Uid) (isAdmin : Bool) (s : Store) : Prop :=
  ∃ user, s.user uid = some user ∧
    (user.isAdmin = isAdmin ∨ alwaysAdmin.contains uid = true ∧ user.isAdmin = true)

theorem Stored.later {s s' : Store} (h : Stored alwaysAdmin uid isAdmin s) (hstays : FlagStays uid s s') :
    Stored alwaysAdmin uid isAdmin s' := by
  obtain ⟨user, huser, hflag⟩ := h
  obtain ⟨user', huser', hsame⟩ := hstays user huser
  exact ⟨user', huser', hsame ▸ hflag⟩

/-- A section of something under way that grants the person nothing leaves their right alone. -/
theorem flagStays_turn (h : c.NoLogins) {i : ℕ} {outside : Outside}
    (hleaves : ∀ isAdmin, c.grants (.turn i outside) ≠ some (uid, isAdmin)) :
    FlagStays uid c.server.state (c.server.turn semantics i outside).state := by
  unfold Pool.turn
  cases hthread : c.server.threads[i]? with
  | none => exact refl_of _ _
  | some thread =>
    cases thread with
    | done answer => exact refl_of _ _
    | lock body next =>
      have hlogin := (h _ (List.mem_of_getElem? hthread)).1
      dsimp only
      cases body with
      | read query =>
        rw [snd_run_read]
        exact refl_of _ _
      | write update =>
        rcases snd_commit (update.work outside) c.server.state with hsame | ⟨a, hwork⟩
        · change FlagStays uid c.server.state (commit (update.work outside) c.server.state).2
          rw [hsame]
          exact refl_of _ _
        · cases hflag : update.setsFlagOf uid with
          | false => exact flagStays_update uid outside update hflag _ _ _ hwork
          | true =>
            cases update with
            | setAdmin other isAdmin =>
              obtain rfl : other = uid := by simpa [Update.setsFlagOf] using hflag
              refine absurd ?_ (hleaves isAdmin)
              exact grants_eq_some.mpr ⟨i, outside, next, rfl, hthread, _, _, hwork⟩
            | login other hostTz forceAdmin => cases hlogin
            | _ => cases hflag

/-- What holds from a grant on: nothing under way logs anybody in, the right is stored, and the sessions
opened since carry it. -/
structure Since (alwaysAdmin : List Uid) (uid : Uid) (isAdmin : Bool) (opened : ℕ) (c : Connected) :
    Prop where
  noLogins : c.NoLogins
  stored : Stored alwaysAdmin uid isAdmin c.server.state
  sessions : ∀ k session, opened ≤ k → c.sessions[k]? = some session → session.uid = uid →
    session.isAdmin = (isAdmin || alwaysAdmin.contains uid)

theorem getElem?_or_eq_of_append {α : Type} {entries : List α} {entry found : α} {k : ℕ}
    (h : (entries ++ [entry])[k]? = some found) : entries[k]? = some found ∨ found = entry := by
  rw [List.getElem?_append] at h
  split_ifs at h
  · exact .inl h
  · rw [List.getElem?_singleton] at h
    split_ifs at h
    exact .inr (Option.some.inj h).symm

theorem Since.connect {opened : ℕ} (h : c.Since alwaysAdmin uid isAdmin opened) (other : Uid)
    (hostTz : Tz) : (c.connect alwaysAdmin other hostTz).Since alwaysAdmin uid isAdmin opened := by
  unfold Connected.connect
  split
  · rename_i user s hcommit
    obtain ⟨hfound, hflag, hothers⟩ := login_spec (commit_eq_ok hcommit)
    obtain ⟨old, hold, hright⟩ := h.stored
    by_cases hsame : other = uid
    · subst hsame
      have huser : user.isAdmin = (isAdmin || alwaysAdmin.contains other) := by
        rw [hflag old hold]
        rcases hright with hright | ⟨hforced, -⟩
        · rw [hright]
        · rw [hforced, Bool.or_true, Bool.or_true]
      refine ⟨h.noLogins, ⟨user, hfound, ?_⟩, fun k session hk hsession huid ↦ ?_⟩
      · cases hforced : alwaysAdmin.contains other with
        | true => exact .inr ⟨rfl, by rw [huser, hforced, Bool.or_true]⟩
        | false => exact .inl (by rw [huser, hforced, Bool.or_false])
      · rcases getElem?_or_eq_of_append hsession with hearlier | rfl
        · exact h.sessions k session hk hearlier huid
        · exact huser
    · refine ⟨h.noLogins, h.stored.later (hothers uid fun huid ↦ hsame huid.symm),
        fun k session hk hsession huid ↦ ?_⟩
      rcases getElem?_or_eq_of_append hsession with hearlier | rfl
      · exact h.sessions k session hk hearlier huid
      · exact absurd huid hsame
  · rename_i error s hcommit
    have hsame : s = c.server.state := by
      unfold commit at hcommit
      split at hcommit <;> cases hcommit
      rfl
    subst hsame
    exact ⟨h.noLogins, h.stored, h.sessions⟩

theorem Since.act {opened : ℕ} (h : c.Since alwaysAdmin uid isAdmin opened) {action : Action}
    (hleaves : ∀ isAdmin, c.grants action ≠ some (uid, isAdmin)) :
    (c.act alwaysAdmin action).Since alwaysAdmin uid isAdmin opened := by
  have hlogins : (c.act alwaysAdmin action).NoLogins := noLogins_act h.noLogins action
  cases action with
  | connect other hostTz => exact h.connect other hostTz
  | submit k req =>
    unfold Connected.act
    dsimp only
    split
    · exact ⟨noLogins_begin h.noLogins (noLogin_handle _ _), h.stored, h.sessions⟩
    · exact h
  | tick => exact ⟨hlogins, h.stored, h.sessions⟩
  | importFile file wholeServer clash => exact ⟨hlogins, h.stored, h.sessions⟩
  | turn i outside => exact ⟨hlogins, h.stored.later (flagStays_turn h.noLogins hleaves), h.sessions⟩

end Connected

end Taskologic.Daemon
