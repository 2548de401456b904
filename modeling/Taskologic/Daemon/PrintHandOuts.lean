import Taskologic.Daemon.PrintQueue

/-!
# Who gets a print job

Between the section that lists what is pending and the one that marks a job, others may have taken the job,
or printed it. As long as every job is still pending when it is handed to a client, a job is with one client
at a time and is never sent again once it has been printed: `oneClient_of_stillPending`. Two dispatchers that
list the same job send it to two clients: `not_oneClient_twice`.

Nothing a request does changes what waits for somebody else, apart from an acknowledgement, which names a job
and not a person: `spares_iff_not_acknowledges`.
-/

set_option autoImplicit false
set_option relaxedAutoImplicit false

namespace Taskologic.Daemon

open Taskologic.Core Taskologic.Library

variable {Paper : Type}

/-- A section of the daemon that ran, with the queue it found. -/
abbrev DeskHappened (Paper : Type) : Type 1 := Pool.Happening (DeskSection Paper) Outside (Desk Paper)

/-! ### What a section does to the queue -/

namespace Desk

/-- The job waits for a client. -/
def Pending (desk : Desk Paper) (id : PrintJobId) : Prop :=
  ∃ q ∈ desk.queue, q.id = id ∧ q.inFlightSince.isNone = true

/-- The job has been handed to a client. -/
def InFlight (desk : Desk Paper) (id : PrintJobId) : Prop :=
  ∃ q ∈ desk.queue, q.id = id ∧ q.inFlightSince.isSome = true

instance (desk : Desk Paper) (id : PrintJobId) : Decidable (desk.Pending id) :=
  inferInstanceAs (Decidable (∃ q ∈ desk.queue, _))

instance (desk : Desk Paper) (id : PrintJobId) : Decidable (desk.InFlight id) :=
  inferInstanceAs (Decidable (∃ q ∈ desk.queue, _))

/-- The ids in the queue have been handed out, each to one job. -/
structure Numbered (desk : Desk Paper) : Prop where
  lt_nextJob : ∀ q ∈ desk.queue, q.id < desk.nextJob
  eq_of_id : ∀ q ∈ desk.queue, ∀ q' ∈ desk.queue, q.id = q'.id → q = q'

/-- One queue comes from another: a job is as it was apart from the attempts to print it, or it is new. -/
structure Follows (desk desk' : Desk Paper) : Prop where
  le_nextJob : desk.nextJob ≤ desk'.nextJob
  origin : ∀ q' ∈ desk'.queue, desk.nextJob ≤ q'.id ∨
    ∃ q ∈ desk.queue, q.id = q'.id ∧ q.targetUid = q'.targetUid ∧ q.job = q'.job

variable {desk desk' : Desk Paper}

/-- A queue in which jobs are at most changed in place. -/
theorem follows_map {store : Store} {f : QueuedJob Paper → QueuedJob Paper}
    (hf : ∀ q, (f q).id = q.id ∧ (f q).targetUid = q.targetUid ∧ (f q).job = q.job) :
    desk.Follows { desk with store := store, queue := desk.queue.map f } := by
  refine ⟨le_rfl, fun q' hq' ↦ .inr ?_⟩
  obtain ⟨q, hq, rfl⟩ := List.mem_map.mp hq'
  exact ⟨q, hq, (hf q).1.symm, (hf q).2.1.symm, (hf q).2.2.symm⟩

/-- A queue with some of the jobs. -/
theorem follows_filter {store : Store} {p : QueuedJob Paper → Bool} :
    desk.Follows { desk with store := store, queue := desk.queue.filter p } :=
  ⟨le_rfl, fun q' hq' ↦ .inr ⟨q', List.mem_of_mem_filter hq', rfl, rfl, rfl⟩⟩

theorem follows_of_same (hqueue : desk'.queue = desk.queue) (hnext : desk'.nextJob = desk.nextJob) :
    desk.Follows desk' :=
  ⟨hnext.ge, fun q' hq' ↦ .inr ⟨q', hqueue ▸ hq', rfl, rfl, rfl⟩⟩

theorem follows_enqueuePrint {uid : Uid} {job : PrintJob Paper} {maxAge : ℤ} {now : Instant} :
    desk.Follows (desk.enqueuePrint uid job maxAge now) := by
  refine ⟨Nat.le_succ _, fun q' hq' ↦ ?_⟩
  rcases List.mem_append.mp hq' with hold | hnew
  · exact .inr ⟨q', hold, rfl, rfl, rfl⟩
  · rw [List.mem_singleton.mp hnew]
    exact .inl le_rfl

theorem follows_ackPrintErr {id : PrintJobId} {error : Text} {now : Instant} :
    desk.Follows (desk.ackPrintErr id error now).2 := by
  have hmarked : desk.Follows
      { desk with queue := desk.queue.map fun q ↦ if q.id = id then failed error q else q } :=
    follows_map fun q ↦ by split_ifs <;> exact ⟨rfl, rfl, rfl⟩
  unfold ackPrintErr
  dsimp only
  split
  · exact hmarked
  · split_ifs
    · exact ⟨hmarked.le_nextJob, fun q' hq' ↦ hmarked.origin q' (List.mem_of_mem_filter hq')⟩
    · exact hmarked

theorem Numbered.map {store : Store} {f : QueuedJob Paper → QueuedJob Paper} (hs : desk.Numbered)
    (hf : ∀ q, (f q).id = q.id) : Numbered { desk with store := store, queue := desk.queue.map f } := by
  constructor
  · intro q' hq'
    obtain ⟨q, hq, rfl⟩ := List.mem_map.mp hq'
    exact (hf q).trans_lt (hs.lt_nextJob q hq)
  · intro q' hq' q'' hq'' hid
    obtain ⟨q, hq, rfl⟩ := List.mem_map.mp hq'
    obtain ⟨p, hp, rfl⟩ := List.mem_map.mp hq''
    rw [hf, hf] at hid
    rw [hs.eq_of_id q hq p hp hid]

theorem Numbered.filter {store : Store} {p : QueuedJob Paper → Bool} (hs : desk.Numbered) :
    Numbered { desk with store := store, queue := desk.queue.filter p } :=
  ⟨fun q hq ↦ hs.lt_nextJob q (List.mem_of_mem_filter hq), fun q hq q' hq' hid ↦
    hs.eq_of_id q (List.mem_of_mem_filter hq) q' (List.mem_of_mem_filter hq') hid⟩

theorem Numbered.enqueuePrint {uid : Uid} {job : PrintJob Paper} {maxAge : ℤ} {now : Instant}
    (hs : desk.Numbered) : (desk.enqueuePrint uid job maxAge now).Numbered := by
  have hmem (q : QueuedJob Paper) (hq : q ∈ (desk.enqueuePrint uid job maxAge now).queue) :
      q ∈ desk.queue ∨ q = ⟨desk.nextJob, uid, job, now, now + maxAge, 0, none, none⟩ :=
    (List.mem_append.mp hq).imp_right List.mem_singleton.mp
  constructor
  · intro q hq
    rcases hmem q hq with hold | rfl
    · exact (hs.lt_nextJob q hold).trans (Nat.lt_succ_self _)
    · exact Nat.lt_succ_self _
  · intro q hq q' hq' hid
    rcases hmem q hq with hold | rfl <;> rcases hmem q' hq' with hold' | rfl
    · exact hs.eq_of_id q hold q' hold' hid
    · exact absurd hid (hs.lt_nextJob q hold).ne
    · exact absurd hid (hs.lt_nextJob q' hold').ne'
    · rfl

theorem Numbered.ackPrintErr {id : PrintJobId} {error : Text} {now : Instant} (hs : desk.Numbered) :
    (desk.ackPrintErr id error now).2.Numbered := by
  have hmarked : Numbered
      { desk with queue := desk.queue.map fun q ↦ if q.id = id then failed error q else q } :=
    hs.map fun q ↦ by split_ifs <;> rfl
  unfold Desk.ackPrintErr
  dsimp only
  split
  · exact hmarked
  · split_ifs
    · exact hmarked.filter
    · exact hmarked

/-- Every section keeps the ids apart. -/
theorem Numbered.run {α : Type} {maxAge : ℤ} {now : Instant} (hs : desk.Numbered)
    (work : DeskWork Paper α) : (work.run maxAge now desk).2.Numbered := by
  cases work with
  | enqueue uid job called => exact hs.enqueuePrint
  | hand client id job called => exact hs.map fun q ↦ by split_ifs <;> rfl
  | ackOk id => exact hs.filter
  | ackErr id error => exact hs.ackPrintErr
  | expire called => exact hs.filter
  | release olderThan => exact hs.map fun q ↦ by split_ifs <;> rfl
  | _ => exact ⟨hs.lt_nextJob, hs.eq_of_id⟩

/-- Whatever a section does, the queue it leaves comes from the one it found. -/
theorem follows_run {α : Type} {maxAge : ℤ} {now : Instant} (work : DeskWork Paper α) :
    desk.Follows (work.run maxAge now desk).2 := by
  cases work with
  | enqueue uid job called => exact follows_enqueuePrint
  | hand client id job called => exact follows_map fun q ↦ by split_ifs <;> exact ⟨rfl, rfl, rfl⟩
  | ackOk id => exact follows_filter
  | ackErr id error => exact follows_ackPrintErr
  | expire called => exact follows_filter
  | release olderThan => exact follows_map fun q ↦ by split_ifs <;> exact ⟨rfl, rfl, rfl⟩
  | _ => exact follows_of_same rfl rfl

end Desk

theorem follows_after (maxAge : ℤ) (h : DeskHappened Paper) :
    h.before.Follows (h.after (deskSemantics Paper maxAge)) := by
  obtain ⟨body, outside, desk⟩ := h
  cases body with
  | desk work => exact Desk.follows_run work
  | store body => exact Desk.follows_of_same rfl rfl

theorem numbered_after {maxAge : ℤ} (h : DeskHappened Paper) (hs : h.before.Numbered) :
    (h.after (deskSemantics Paper maxAge)).Numbered := by
  obtain ⟨body, outside, desk⟩ := h
  cases body with
  | desk work => exact hs.run work
  | store body => exact ⟨hs.lt_nextJob, hs.eq_of_id⟩

/-! ### One client at a time -/

/-- The job a section hands out, and to whom. -/
def DeskSection.hands : {α : Type} → DeskSection Paper α → Option (PrintJobId × ClientEntry)
  | _, .desk (.hand client id _ _) => some (id, client)
  | _, _ => none

/-- The job a section acknowledges as printed. -/
def DeskSection.acksOk : {α : Type} → DeskSection Paper α → Option PrintJobId
  | _, .desk (.ackOk id) => some id
  | _, _ => none

namespace DeskHappened

variable (maxAge : ℤ)

/-- The job that is sent, and over which connection. -/
def sends (h : DeskHappened Paper) : Option (PrintJobId × ℕ) :=
  (h.body.hands.filter fun handed ↦ h.before.reaches handed.2).map fun handed ↦ (handed.1, handed.2.conn)

/-- The section takes a job back that was with a client. -/
def Releases (h : DeskHappened Paper) (id : PrintJobId) : Prop :=
  h.before.InFlight id ∧ (h.after (deskSemantics Paper maxAge)).Pending id

/-- A job that is sent is pending. -/
def StillPending (h : DeskHappened Paper) : Prop := ∀ sent ∈ sends h, h.before.Pending sent.1

instance (h : DeskHappened Paper) : Decidable (StillPending h) :=
  inferInstanceAs (Decidable (∀ sent ∈ sends h, h.before.Pending sent.1))

instance (h : DeskHappened Paper) (id : PrintJobId) : Decidable (Releases maxAge h id) :=
  inferInstanceAs (Decidable (_ ∧ _))

end DeskHappened

/-- Until it is released, a job that was sent to one client is sent to no other. -/
def OneClient (maxAge : ℤ) (log : List (DeskHappened Paper)) : Prop :=
  ∀ (past between later : List (DeskHappened Paper)) (first second : DeskHappened Paper) (id : PrintJobId)
    (conn conn' : ℕ), log = past ++ first :: (between ++ second :: later) →
    DeskHappened.sends first = some (id, conn) → DeskHappened.sends second = some (id, conn') →
    (∀ h ∈ between, ¬ DeskHappened.Releases maxAge h id) → conn = conn'

/-- A job that was acknowledged as printed is not sent again. -/
def NeverAgain (log : List (DeskHappened Paper)) : Prop :=
  ∀ (past since : List (DeskHappened Paper)) (h : DeskHappened Paper) (id : PrintJobId),
    log = past ++ h :: since → h.body.acksOk = some id → id < h.before.nextJob →
    ∀ later ∈ since, ∀ sent ∈ DeskHappened.sends later, sent.1 ≠ id

section Runs

variable {maxAge : ℤ} {h : DeskHappened Paper} {id : PrintJobId}

/-- The id has been handed out, and the job does not wait for a client. -/
def Desk.Handed (desk : Desk Paper) (id : PrintJobId) : Prop :=
  id < desk.nextJob ∧ ∀ q ∈ desk.queue, q.id = id → q.inFlightSince.isSome = true

/-- The id has been handed out, and the job is not in the queue. -/
def Desk.Gone (desk : Desk Paper) (id : PrintJobId) : Prop :=
  id < desk.nextJob ∧ ∀ q ∈ desk.queue, q.id ≠ id

/-- A job that is with a client stays with a client, or it is gone, until it is released. -/
theorem handed_after (hreleases : ¬ DeskHappened.Releases maxAge h id)
    (hs : h.before.Handed id) :
    (h.after (deskSemantics Paper maxAge)).Handed id := by
  have hfollows := follows_after maxAge h
  refine ⟨hs.1.trans_le hfollows.le_nextJob, fun q' hq' hid ↦ ?_⟩
  rcases hfollows.origin q' hq' with hnew | ⟨q, hq, hsame, -⟩
  · exact absurd (hid ▸ hs.1) hnew.not_gt
  · by_contra hpending
    rw [Option.not_isSome_iff_eq_none, ← Option.isNone_iff_eq_none] at hpending
    have hflight := hs.2 q hq (hsame.trans hid)
    exact hreleases ⟨⟨q, hq, hsame.trans hid, hflight⟩, ⟨q', hq', hid, hpending⟩⟩

/-- A job that is gone stays away. -/
theorem gone_after (hs : h.before.Gone id) :
    (h.after (deskSemantics Paper maxAge)).Gone id := by
  have hfollows := follows_after maxAge h
  refine ⟨hs.1.trans_le hfollows.le_nextJob, fun q' hq' hid ↦ ?_⟩
  rcases hfollows.origin q' hq' with hnew | ⟨q, hq, hsame, -⟩
  · exact absurd (hid ▸ hs.1) hnew.not_gt
  · exact hs.2 q hq (hsame.trans hid)

theorem Desk.Numbered.lt_of_pending {desk : Desk Paper} (hs : desk.Numbered) (hpending : desk.Pending id) :
    id < desk.nextJob := by
  obtain ⟨q, hq, rfl, -⟩ := hpending
  exact hs.lt_nextJob q hq

theorem Desk.Handed.not_pending {desk : Desk Paper} (hs : desk.Handed id) : ¬ desk.Pending id := by
  rintro ⟨q, hq, hid, hpending⟩
  rw [Option.isNone_iff_eq_none] at hpending
  have hflight := hs.2 q hq hid
  rw [hpending] at hflight
  cases hflight

/-- After a job has been sent it is with a client. -/
theorem handed_of_sends {conn : ℕ} (hsends : DeskHappened.sends h = some (id, conn))
    (hid : id < h.before.nextJob) :
    (h.after (deskSemantics Paper maxAge)).Handed id := by
  obtain ⟨body, outside, desk⟩ := h
  obtain ⟨handed, hhanded, hsame⟩ := Option.map_eq_some_iff.mp hsends
  obtain ⟨hhands, -⟩ := Option.filter_eq_some_iff.mp hhanded
  cases body with
  | store body => cases hhands
  | desk work =>
    cases work with
    | hand client job paper called =>
      obtain rfl := Option.some.inj hhands
      obtain rfl : job = id := (Prod.ext_iff.mp hsame).1
      refine ⟨hid, fun q' hq' hq'id ↦ ?_⟩
      obtain ⟨q, hq, rfl⟩ := List.mem_map.mp hq'
      split_ifs at hq'id ⊢ with hmarked
      · rfl
      · exact absurd hq'id hmarked
    | _ => cases hhands

/-- After a job has been acknowledged as printed it is gone. -/
theorem gone_of_acksOk (hacks : h.body.acksOk = some id) (hid : id < h.before.nextJob) :
    (h.after (deskSemantics Paper maxAge)).Gone id := by
  obtain ⟨body, outside, desk⟩ := h
  cases body with
  | store body => cases hacks
  | desk work =>
    cases work with
    | ackOk job =>
      obtain rfl := Option.some.inj hacks
      refine ⟨hid, fun q hq hsame ↦ ?_⟩
      have hkept := (List.mem_filter.mp hq).2
      exact absurd hsame (bne_iff_ne.mp hkept)
    | _ => cases hacks

variable {pool : Pool (DeskSection Paper) AppError (Desk Paper) Unit} {schedule : List (ℕ × Outside)}

/-- Whatever runs side by side, as long as each job is pending when it is sent, a job is sent to one client
until it is released, and no job is sent that was acknowledged as printed. -/
theorem oneClient_of_stillPending (hnumbered : pool.state.Numbered)
    (hpending : ∀ h ∈ pool.log (deskSemantics Paper maxAge) schedule, DeskHappened.StillPending h) :
    OneClient maxAge (pool.log (deskSemantics Paper maxAge) schedule) ∧
      NeverAgain (pool.log (deskSemantics Paper maxAge) schedule) := by
  have htrail : Pool.Trail (deskSemantics Paper maxAge) pool.state
      (pool.log (deskSemantics Paper maxAge) schedule)
      (pool.play (deskSemantics Paper maxAge) schedule).state := Pool.trail_log pool schedule
  constructor
  · intro past between later first second id conn conn' hlog hfirst hsecond hreleases
    rw [hlog] at htrail hpending
    obtain ⟨s, hpast, hrest⟩ := htrail.split
    have hs : s.Numbered := hpast.invariant (C := fun _ ↦ True) (fun _ _ ↦ trivial)
      (fun h _ hs ↦ numbered_after h hs) hnumbered
    cases hrest with
    | cons hsince =>
      obtain ⟨s', hbetween, hlater⟩ := hsince.split
      have hid := hs.lt_of_pending (hpending first (by simp) (id, conn) hfirst)
      have hhanded := hbetween.invariant (I := (·.Handed id)) hreleases (fun h hmeets hs ↦ handed_after hmeets hs)
        (handed_of_sends hfirst hid)
      cases hlater
      exact absurd (hpending second (by simp) (id, conn') hsecond) hhanded.not_pending
  · intro past since h id hlog hacks hid later hmem sent hsent hsame
    rw [hlog] at htrail hpending
    obtain ⟨s, hpast, hrest⟩ := htrail.split
    cases hrest with
    | cons hsince =>
      obtain ⟨earlier, rest, rfl⟩ := List.append_of_mem hmem
      obtain ⟨s', hearlier, hlater⟩ := hsince.split
      have hgone := hearlier.invariant (C := fun _ ↦ True) (I := (·.Gone id)) (fun _ _ ↦ trivial)
        (fun h _ hs ↦ gone_after hs) (gone_of_acksOk hacks hid)
      cases hlater
      obtain ⟨q, hq, hqid, -⟩ := hpending later (by simp) sent hsent
      exact hgone.2 q hq (hqid.trans hsame)

end Runs

/-! ### One slip, two printers -/

/-- A slip waits for the first of two people. -/
def oneSlip : Desk Unit where
  store := { Store.empty with users := [⟨1, false, Tz.utc⟩, ⟨2, false, Tz.utc⟩] }
  queue := [⟨1, 1, ⟨1, ()⟩, 0, 1000, 0, none, none⟩]
  nextJob := 2
  clients := []
  nextConn := 1

theorem numbered_oneSlip : oneSlip.Numbered := by
  constructor
  · rintro q hq
    rw [List.mem_singleton.mp hq]
    exact Nat.lt_succ_self _
  · intro q hq q' hq' _
    rw [List.mem_singleton.mp hq, List.mem_singleton.mp hq']

/-- Two connections of one person, each with a printer. -/
def twoPrinters : Pool (DeskSection Unit) AppError (Desk Unit) Unit :=
  attend oneSlip [.request ⟨1, false⟩ (.hello Tz.utc false true 0), .request ⟨1, false⟩ (.hello Tz.utc false true 5)]

/-- One after the other. -/
def connectInTurn : List (ℕ × Outside) := List.replicate 6 (0, .still 10) ++ List.replicate 6 (1, .still 10)

theorem oneClient_inTurn :
    OneClient 1000 (twoPrinters.log (deskSemantics Unit 1000) connectInTurn) ∧
      NeverAgain (twoPrinters.log (deskSemantics Unit 1000) connectInTurn) :=
  oneClient_of_stillPending numbered_oneSlip (by decide +kernel)

/-- The second connection is made between the section of the first that lists the slip and the one that
marks it. -/
def connectTwice : List (ℕ × Outside) :=
  List.replicate 5 (0, .still 10) ++ List.replicate 6 (1, .still 10) ++ [(0, .still 10)]

theorem length_connectTwice : (twoPrinters.log (deskSemantics Unit 1000) connectTwice).length = 12 := by
  decide +kernel

/-- The slip is sent to both. -/
theorem not_oneClient_twice :
    ¬ OneClient 1000 (twoPrinters.log (deskSemantics Unit 1000) connectTwice) := by
  intro h
  have hlast := List.take_append_drop 10 (twoPrinters.log (deskSemantics Unit 1000) connectTwice)
  rw [List.drop_eq_getElem_cons (by rw [length_connectTwice]; decide),
    List.drop_eq_getElem_cons (by rw [length_connectTwice]; decide)] at hlast
  have hsame := h _ [] _ _ _ 1 2 1 hlast.symm (by decide +kernel) (by decide +kernel)
    (fun _ hmem ↦ (List.not_mem_nil hmem).elim)
  exact absurd hsame (by decide)

/-! ### Other people's jobs -/

/-- What is queued for somebody. -/
def Desk.jobsOf (desk : Desk Paper) (uid : Uid) : List (QueuedJob Paper) :=
  desk.queue.filter fun q ↦ q.targetUid == uid

/-- The job a section acknowledges, printed or not. -/
def DeskSection.acks : {α : Type} → DeskSection Paper α → Option PrintJobId
  | _, .desk (.ackOk id) => some id
  | _, .desk (.ackErr id _) => some id
  | _, _ => none

/-- The jobs a section lists, with the person it lists them for. -/
def DeskSection.listing : {α : Type} → DeskSection Paper α → Except AppError α → List (PrintJobId × Uid)
  | _, .desk (.pending uid _), .ok jobs => jobs.map fun job ↦ (job.1, uid)
  | _, _, _ => []

/-- The section acknowledges a job that is queued for somebody. -/
def DeskHappened.Acknowledges (h : DeskHappened Paper) (uid : Uid) : Prop :=
  ∃ id ∈ h.body.acks, ∃ q ∈ h.before.queue, q.id = id ∧ q.targetUid = uid

/-- Whatever comes of the request, it makes no slip for somebody. -/
def DeskRequest.Spares (uid : Uid) : DeskRequest Paper → Prop
  | .other _ slips => ∀ response desk, ∀ slip ∈ slips response desk, slip.1 ≠ uid
  | _ => True

section Frame

variable {maxAge : ℤ} {uid : Uid}

/-- The section queues nothing for somebody, hands out only what its request has listed for others, and is
none of the scheduler's own. -/
def Minds (maxAge : ℤ) (uid : Uid) (past : List (DeskHappened Paper)) :
    (α : Type) → DeskSection Paper α → Prop
  | _, .desk (.enqueue target _ _) => target ≠ uid
  | _, .desk (.hand _ id _ _) => ∃ r ∈ past, ∃ target,
      (id, target) ∈ r.body.listing (r.answer (deskSemantics Paper maxAge)) ∧ target ≠ uid
  | _, .desk (.expire _) | _, .desk (.release _) => False
  | _, _ => True

theorem follows_handAll {client : ClientEntry} {now : Instant} {jobs : List (PrintJobId × PrintJob Paper)}
    {past : List (DeskHappened Paper)}
    (hlisted : ∀ job ∈ jobs, ∃ r ∈ past, ∃ target,
      (job.1, target) ∈ r.body.listing (r.answer (deskSemantics Paper maxAge)) ∧ target ≠ uid) :
    (handAll client now jobs).Follows (deskSemantics Paper maxAge) (Minds maxAge uid) (fun _ _ ↦ True)
      past := by
  induction jobs generalizing past with
  | nil => exact Thread.follows_pure.mpr trivial
  | cons first rest ih =>
    obtain ⟨id, job⟩ := first
    obtain ⟨hfirst, hrest⟩ := List.forall_mem_cons.mp hlisted
    refine .bind (M := fun _ _ ↦ True) (Thread.follows_call hfirst fun _ _ _ _ ↦ trivial) fun sent later _ ↦ ?_
    split_ifs
    · refine ih fun other hother ↦ ?_
      obtain ⟨r, hr, htarget⟩ := hrest other hother
      exact ⟨r, List.mem_append_left _ hr, htarget⟩
    · exact Thread.follows_pure.mpr trivial

/-- What is sent to others was listed for them. -/
theorem follows_dispatchPrintJobs {target : Uid} (htarget : target ≠ uid) (past : List (DeskHappened Paper)) :
    (dispatchPrintJobs target).Follows (deskSemantics Paper maxAge) (Minds maxAge uid) (fun _ _ ↦ True)
      past := by
  refine .bind (M := fun _ _ ↦ True) (Thread.follows_call trivial fun _ _ _ _ ↦ trivial) fun client later _ ↦ ?_
  cases client with
  | none => exact Thread.follows_pure.mpr trivial
  | some client =>
    refine .bind (M := fun _ _ ↦ True) (Thread.follows_call trivial fun _ _ _ _ ↦ trivial)
      fun now later _ ↦ ?_
    refine .bind (M := fun jobs past ↦ ∀ job ∈ jobs, ∃ r ∈ past, ∃ target,
        (job.1, target) ∈ r.body.listing (r.answer (deskSemantics Paper maxAge)) ∧ target ≠ uid)
      (Thread.follows_call trivial fun outside s jobs hjobs job hjob ↦ ?_)
      fun jobs later hlisted ↦ follows_handAll hlisted
    obtain rfl := Except.ok.inj hjobs
    exact ⟨_, List.mem_append_right _ (List.mem_singleton_self _), target,
      List.mem_map_of_mem (f := fun job ↦ (job.1, target)) hjob, htarget⟩

theorem follows_enqueuePrint {target : Uid} {job : PrintJob Paper} (htarget : target ≠ uid)
    (past : List (DeskHappened Paper)) :
    (enqueuePrint target job).Follows (deskSemantics Paper maxAge) (Minds maxAge uid) (fun _ _ ↦ True)
      past :=
  .bind (M := fun _ _ ↦ True) (Thread.follows_call trivial fun _ _ _ _ ↦ trivial) fun _ _ _ ↦
    .bind (M := fun _ _ ↦ True) (Thread.follows_call htarget fun _ _ _ _ ↦ trivial) fun _ _ _ ↦
      follows_dispatchPrintJobs htarget _

/-- What a request does beside the queue. -/
theorem follows_beside {ρ : Type} (call : Call ρ) (past : List (DeskHappened Paper)) :
    (beside call).Follows (deskSemantics Paper maxAge) (Minds maxAge uid) (fun _ _ ↦ True) past := by
  have honly : (beside call).Only (S := DeskSection Paper) fun _ body ↦ ∃ inner, body = .store inner :=
    Thread.only_lift (fun _ body ↦ ⟨body, rfl⟩) call
  exact honly.follows fun past α body hbody ↦ by
    obtain ⟨inner, rfl⟩ := hbody
    trivial

theorem follows_printSlips {slips : List (Uid × PrintJob Paper)} (hslips : ∀ slip ∈ slips, slip.1 ≠ uid)
    (past : List (DeskHappened Paper)) :
    (printSlips slips).Follows (deskSemantics Paper maxAge) (Minds maxAge uid) (fun _ _ ↦ True) past :=
  .bind (.each fun slip hslip _ ↦ (follows_enqueuePrint (hslips slip hslip) _).attempt) fun _ _ _ ↦
    Thread.follows_pure.mpr trivial

/-- A request of somebody else that makes no slip for the person minds what is queued for them. -/
theorem follows_request {actor : Actor} {req : DeskRequest Paper} (hother : actor.uid ≠ uid)
    (hspares : req.Spares uid) (past : List (DeskHappened Paper)) :
    (req.call actor).Follows (deskSemantics Paper maxAge) (Minds maxAge uid) (fun _ _ ↦ True) past := by
  cases req with
  | hello hostTz forceAdmin hasPrinter printPriority =>
    refine .bind (follows_beside _ _) fun user later _ ↦
      .bind (M := fun _ _ ↦ True) (Thread.follows_call trivial fun _ _ _ _ ↦ trivial) fun _ later _ ↦ ?_
    split_ifs
    · exact .bind (follows_dispatchPrintJobs hother _).attempt fun _ _ _ ↦ Thread.follows_pure.mpr trivial
    · exact Thread.follows_pure.mpr trivial
  | close conn => exact Thread.follows_call trivial fun _ _ _ _ ↦ trivial
  | printTask task build =>
    refine .bind (follows_beside _ _) fun loaded later _ ↦
      .bind (M := fun slips _ ↦ ∀ slip ∈ slips, slip.1 ≠ uid)
        (Thread.follows_call trivial fun outside desk slips hslips slip hslip ↦ ?_) fun slips later hslips ↦
        .bind (.each fun slip hslip _ ↦ follows_enqueuePrint (hslips slip hslip) _) fun _ _ _ ↦
          Thread.follows_pure.mpr trivial
    change (build loaded desk).map _ = .ok slips at hslips
    cases hbuilt : build loaded desk with
    | error error =>
      rw [hbuilt] at hslips
      cases hslips
    | ok jobs =>
      rw [hbuilt] at hslips
      obtain rfl := Except.ok.inj hslips
      obtain ⟨job, -, rfl⟩ := List.mem_map.mp hslip
      exact hother
  | ackPrintJob job error =>
    cases error with
    | none => exact Thread.follows_call trivial fun _ _ _ _ ↦ trivial
    | some error =>
      exact .bind (M := fun _ _ ↦ True) (Thread.follows_call trivial fun _ _ _ _ ↦ trivial) fun _ _ _ ↦
        Thread.follows_pure.mpr trivial
  | updatePrefs => exact Thread.follows_call trivial fun _ _ _ _ ↦ trivial
  | other req slips =>
    refine .bind (follows_beside _ _) fun response later _ ↦
      .bind (M := fun slips _ ↦ ∀ slip ∈ slips, slip.1 ≠ uid)
        (Thread.follows_call trivial fun outside desk owed howed ↦ ?_) fun owed later howed ↦
          follows_printSlips howed _
    obtain rfl := Except.ok.inj howed
    exact hspares response desk

/-! ### What changes somebody's jobs -/

/-- Jobs that change nothing of somebody's. -/
theorem filter_map_of_spared {queue : List (QueuedJob Paper)} {f : QueuedJob Paper → QueuedJob Paper}
    (htarget : ∀ q, (f q).targetUid = q.targetUid) (hspared : ∀ q ∈ queue, q.targetUid = uid → f q = q) :
    (queue.map f).filter (fun q ↦ q.targetUid == uid) = queue.filter fun q ↦ q.targetUid == uid := by
  induction queue with
  | nil => rfl
  | cons q rest ih =>
    obtain ⟨hfirst, hrest⟩ := List.forall_mem_cons.mp hspared
    rw [List.map_cons, List.filter_cons, List.filter_cons, ih hrest, htarget]
    split_ifs with hmine
    · rw [hfirst (beq_iff_eq.mp hmine)]
    · rfl

theorem jobsOf_ackPrintOk {desk : Desk Paper} {id : PrintJobId} :
    (desk.ackPrintOk id).jobsOf uid = desk.jobsOf uid ↔ ¬ ∃ q ∈ desk.queue, q.id = id ∧ q.targetUid = uid := by
  unfold Desk.jobsOf Desk.ackPrintOk
  rw [List.filter_comm, List.filter_eq_self]
  constructor
  · rintro hkept ⟨q, hq, hid, htarget⟩
    exact absurd hid (bne_iff_ne.mp (hkept q (List.mem_filter.mpr ⟨hq, beq_iff_eq.mpr htarget⟩)))
  · intro hnone q hq
    obtain ⟨hstored, htarget⟩ := List.mem_filter.mp hq
    exact bne_iff_ne.mpr fun hid ↦ hnone ⟨q, hstored, hid, beq_iff_eq.mp htarget⟩

/-- A failure changes the job it is about. -/
theorem failed_ne (error : Text) (q : QueuedJob Paper) : Desk.failed error q ≠ q := by
  intro hsame
  have hattempts : q.attempts + 1 = q.attempts := congrArg QueuedJob.attempts hsame
  exact absurd hattempts (Nat.succ_ne_self _)

/-- Marking a job as failed changes what is queued for whoever it is for. -/
theorem filter_map_failed {queue : List (QueuedJob Paper)} {id : PrintJobId} {error : Text} :
    (queue.map fun q ↦ if q.id = id then Desk.failed error q else q).filter (fun q ↦ q.targetUid == uid) =
        queue.filter (fun q ↦ q.targetUid == uid) ↔
      ¬ ∃ q ∈ queue, q.id = id ∧ q.targetUid = uid := by
  constructor
  · rintro hsame ⟨q, hq, hid, htarget⟩
    have htargets : (fun q : QueuedJob Paper ↦ q.targetUid == uid) ∘
        (fun q ↦ if q.id = id then Desk.failed error q else q) = fun q ↦ q.targetUid == uid := by
      funext q
      dsimp only [Function.comp]
      split_ifs <;> rfl
    rw [List.filter_map, htargets] at hsame
    have heach := List.map_inj_left.mp (hsame.trans (List.map_id _).symm) q
      (List.mem_filter.mpr ⟨hq, beq_iff_eq.mpr htarget⟩)
    rw [if_pos hid] at heach
    exact failed_ne error q heach
  · intro hnone
    refine filter_map_of_spared (fun q ↦ by split_ifs <;> rfl) fun q hq htarget ↦ ?_
    exact if_neg fun hid ↦ hnone ⟨q, hq, hid, htarget⟩

theorem jobsOf_ackPrintErr {desk : Desk Paper} {id : PrintJobId} {error : Text} {now : Instant} :
    (desk.ackPrintErr id error now).2.jobsOf uid = desk.jobsOf uid ↔
      ¬ ∃ q ∈ desk.queue, q.id = id ∧ q.targetUid = uid := by
  unfold Desk.ackPrintErr
  dsimp only
  split
  · exact filter_map_failed
  · split_ifs
    · constructor
      · rintro hsame ⟨q, hq, hid, htarget⟩
        have hmine : q ∈ desk.jobsOf uid := List.mem_filter.mpr ⟨hq, beq_iff_eq.mpr htarget⟩
        rw [← hsame] at hmine
        exact absurd hid (bne_iff_ne.mp (List.mem_filter.mp (List.mem_of_mem_filter hmine)).2)
      · intro hnone
        refine Eq.trans (jobsOf_ackPrintOk.mpr ?_) (filter_map_failed.mpr hnone)
        rintro ⟨q', hq', hid, htarget⟩
        obtain ⟨q, hq, rfl⟩ := List.mem_map.mp hq'
        refine hnone ⟨q, hq, ?_⟩
        split_ifs at hid htarget
        · exact ⟨hid, htarget⟩
        · exact ⟨hid, htarget⟩
    · exact filter_map_failed

/-! ### What was listed stays somebody's -/

/-- An id that was listed for somebody is theirs for as long as it is in the queue. -/
structure Listed (maxAge : ℤ) (past : List (DeskHappened Paper)) (desk : Desk Paper) : Prop where
  numbered : desk.Numbered
  lt_nextJob : ∀ r ∈ past, ∀ pair ∈ r.body.listing (r.answer (deskSemantics Paper maxAge)),
    pair.1 < desk.nextJob
  target : ∀ r ∈ past, ∀ pair ∈ r.body.listing (r.answer (deskSemantics Paper maxAge)),
    ∀ q ∈ desk.queue, q.id = pair.1 → q.targetUid = pair.2

/-- What a section lists for somebody is in the queue for them. -/
theorem mem_queue_of_listing {r : DeskHappened Paper} {pair : PrintJobId × Uid}
    (hlisted : pair ∈ r.body.listing (r.answer (deskSemantics Paper maxAge))) :
    ∃ q ∈ r.before.queue, q.id = pair.1 ∧ q.targetUid = pair.2 := by
  obtain ⟨body, outside, desk⟩ := r
  cases body with
  | store body => cases hlisted
  | desk work =>
    cases work with
    | pending target called =>
      obtain ⟨job, hjob, rfl⟩ := List.mem_map.mp hlisted
      obtain ⟨q, hq, rfl⟩ := List.mem_map.mp hjob
      obtain ⟨hstored, hkept⟩ := List.mem_filter.mp ((List.mem_insertionSort _).mp hq)
      rw [Bool.and_eq_true_iff, Bool.and_eq_true_iff, beq_iff_eq] at hkept
      exact ⟨q, hstored, rfl, hkept.1.1⟩
    | _ => cases hlisted

theorem listed_after {past : List (DeskHappened Paper)} {h : DeskHappened Paper}
    (hs : Listed maxAge past h.before) : Listed maxAge (past ++ [h]) (h.after (deskSemantics Paper maxAge)) := by
  have hfollows := follows_after maxAge h
  -- A pair listed before or by the section itself: its id is theirs in the state the section starts from.
  have hbefore (r : DeskHappened Paper) (hr : r ∈ past ++ [h]) (pair : PrintJobId × Uid)
      (hpair : pair ∈ r.body.listing (r.answer (deskSemantics Paper maxAge))) :
      pair.1 < h.before.nextJob ∧ ∀ q ∈ h.before.queue, q.id = pair.1 → q.targetUid = pair.2 := by
    rcases List.mem_append.mp hr with hold | hnew
    · exact ⟨hs.lt_nextJob r hold pair hpair, hs.target r hold pair hpair⟩
    · rw [List.mem_singleton.mp hnew] at hpair
      obtain ⟨q, hq, hid, htarget⟩ := mem_queue_of_listing hpair
      refine ⟨hid ▸ hs.numbered.lt_nextJob q hq, fun q' hq' hsame ↦ ?_⟩
      rw [hs.numbered.eq_of_id q' hq' q hq (hsame.trans hid.symm), htarget]
  refine ⟨numbered_after h hs.numbered, fun r hr pair hpair ↦ ?_, fun r hr pair hpair q' hq' hid ↦ ?_⟩
  · exact (hbefore r hr pair hpair).1.trans_le hfollows.le_nextJob
  · rcases hfollows.origin q' hq' with hnew | ⟨q, hq, hsame, htarget, -⟩
    · exact absurd (hid ▸ (hbefore r hr pair hpair).1) hnew.not_gt
    · exact htarget ▸ (hbefore r hr pair hpair).2 q hq (hsame.trans hid)

/-- A section that minds somebody's jobs changes them exactly by acknowledging one. -/
theorem jobsOf_after_iff {past : List (DeskHappened Paper)} {own : List (DeskHappened Paper)}
    {h : DeskHappened Paper} (hown : ∀ r ∈ own, r ∈ past) (hs : Listed maxAge past h.before)
    (hminds : Minds maxAge uid own h.α h.body) :
    (h.after (deskSemantics Paper maxAge)).jobsOf uid = h.before.jobsOf uid ↔
      ¬ DeskHappened.Acknowledges h uid := by
  obtain ⟨body, outside, desk⟩ := h
  -- A section that acknowledges nothing has to leave the jobs as they are.
  have hquiet (hacks : body.acks = none)
      (hsame : Desk.jobsOf (((deskSemantics Paper maxAge).run body outside desk).2) uid = desk.jobsOf uid) :
      Desk.jobsOf (((deskSemantics Paper maxAge).run body outside desk).2) uid = desk.jobsOf uid ↔
        ¬ DeskHappened.Acknowledges ⟨body, outside, desk⟩ uid := by
    refine iff_of_true hsame ?_
    rintro ⟨id, hid, -⟩
    exact absurd (hacks.symm.trans hid) (Option.some_ne_none id).symm
  cases body with
  | store body => exact hquiet rfl rfl
  | desk work =>
    cases work with
    | enqueue target job called =>
      refine hquiet rfl ?_
      change (desk.queue ++ [_]).filter _ = _
      rw [List.filter_append, List.filter_singleton, beq_false_of_ne hminds]
      exact List.append_nil _
    | hand client id job called =>
      refine hquiet rfl ?_
      obtain ⟨r, hr, target, hlisted, htarget⟩ := hminds
      refine filter_map_of_spared (fun q ↦ by split_ifs <;> rfl) fun q hq hmine ↦ if_neg fun hid ↦ ?_
      exact htarget ((hs.target r (hown r hr) _ hlisted q hq hid).symm.trans hmine)
    | ackOk id =>
      refine jobsOf_ackPrintOk.trans (not_congr ?_)
      exact ⟨fun hq ↦ ⟨id, rfl, hq⟩, fun ⟨_, hid, hq⟩ ↦ Option.some.inj hid ▸ hq⟩
    | ackErr id error =>
      refine jobsOf_ackPrintErr.trans (not_congr ?_)
      exact ⟨fun hq ↦ ⟨id, rfl, hq⟩, fun ⟨_, hid, hq⟩ ↦ Option.some.inj hid ▸ hq⟩
    | expire called => exact hminds.elim
    | release olderThan => exact hminds.elim
    | _ => exact hquiet rfl rfl

/-- Whatever runs side by side, each section of a request that makes no slip for somebody else leaves what is
queued for them as it is, exactly when it does not acknowledge a job of theirs. -/
theorem spares_iff_not_acknowledges {desk : Desk Paper} {jobs : List (DeskJob Paper)}
    {schedule : List (ℕ × Outside)} {i : ℕ} {actor : Actor} {req : DeskRequest Paper}
    (hnumbered : desk.Numbered) (hreq : jobs[i]? = some (.request actor req)) (hother : actor.uid ≠ uid)
    (hspares : req.Spares uid) :
    ∀ h : DeskHappened Paper, (i, h) ∈ (attend desk jobs).logBy (deskSemantics Paper maxAge) schedule →
      ((h.after (deskSemantics Paper maxAge)).jobsOf uid = h.before.jobsOf uid ↔
        ¬ DeskHappened.Acknowledges h uid) := by
  let sem := deskSemantics Paper maxAge
  let log := (attend desk jobs).logBy sem schedule
  have hminds : Pool.Along Pool.further (fun past entry ↦
      (if entry.1 = i then Minds maxAge uid else fun _ _ _ ↦ True) (Pool.own entry.1 past) entry.2.α
        entry.2.body) [] log := by
    refine Pool.follows_logBy (P := fun j ↦ if j = i then Minds maxAge uid else fun _ _ _ ↦ True)
      (Q := fun _ _ ↦ True) fun j thread hthread ↦ ?_
    split_ifs with hj
    · subst hj
      rw [attend, List.getElem?_map, hreq] at hthread
      obtain rfl := Option.some.inj hthread
      exact follows_request hother hspares _
    · exact Thread.follows_of_forall (fun _ _ _ ↦ trivial) thread
  have hlisted : Pool.Along Pool.further (fun past entry ↦ Listed maxAge (past.map Prod.snd) entry.2.before)
      [] log := by
    have hstart : Listed maxAge [] desk :=
      ⟨hnumbered, fun _ hr ↦ (List.not_mem_nil hr).elim, fun _ hr ↦ (List.not_mem_nil hr).elim⟩
    exact Pool.along_logBy ((Pool.trail_log (attend desk jobs) schedule).along (J := Listed maxAge)
      (Pool.along_of_forall fun _ _ ↦ trivial) (fun _ _ _ hs ↦ listed_after hs) (fun _ _ _ hs ↦ hs) hstart)
  intro h hmem
  have hboth := (hminds.and hlisted).mono (Q := fun _ entry ↦ entry.1 = i →
    ((entry.2.after sem).jobsOf uid = entry.2.before.jobsOf uid ↔
      ¬ DeskHappened.Acknowledges entry.2 uid)) ?_
  · exact hboth.forall_mem (i, h) hmem rfl
  · rintro past ⟨j, h⟩ ⟨hmine, hs⟩ hj
    rw [if_pos hj] at hmine
    exact jobsOf_after_iff (fun r hr ↦ Pool.mem_of_mem_own hr) hs hmine

end Frame

/-- The second of two people acknowledges a job that is not in the queue. -/
theorem spares_acksNothing :
    ((oneSlip.ackPrintOk 7).jobsOf 1 = oneSlip.jobsOf 1 ↔
      ¬ DeskHappened.Acknowledges ⟨.desk (.ackOk 7), .still 10, oneSlip⟩ 1) :=
  spares_iff_not_acknowledges numbered_oneSlip
    (show [DeskJob.request ⟨2, false⟩ (.ackPrintJob 7 none)][0]? = _ from rfl) (by decide) trivial
    ⟨.desk (.ackOk 7), .still 10, oneSlip⟩
    (show (0, _) ∈ (attend oneSlip [.request ⟨2, false⟩ (.ackPrintJob 7 none)]).logBy (deskSemantics Unit 1000)
      [(0, .still 10)] from List.mem_cons_self)

/-- They acknowledge the slip of the first, and it is gone. -/
theorem jobsOf_ne_acksAnothers :
    ((attend oneSlip [.request ⟨2, false⟩ (.ackPrintJob 1 none)]).play (deskSemantics Unit 1000)
      [(0, .still 10)]).state.jobsOf 1 ≠ oneSlip.jobsOf 1 := by
  decide

end Taskologic.Daemon
