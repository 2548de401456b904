import Taskologic.Daemon.Server
import Taskologic.Library.OwnPast

/-!
# The print queue

Slips wait in a queue until a client of theirs with a printer takes them. The daemon hands a job out in two
sections (`dispatchPrintJobs`): one lists what is pending for somebody, and one for each job marks it as in
flight and sends it. The client acknowledges it, with an error if there was one, and what nobody acknowledges
is released after a while (`printQueueHousekeeping`).

`Desk` is the store with the queue and the clients that are connected, and `DeskJob` is everything that may
be under way: whatever a session asks for, and a pass of the scheduler.

Scope. What is on the paper is a type of its own. Which slips the rules and the settings make of a request or
of a date is a parameter (`compose`), and so is what the slips of a task say; that somebody has had a slip is
not written down here. The slips of a request go into the queue when it has done the rest. A message is on
its way to the client as soon as the job is marked.
-/

set_option autoImplicit false
set_option relaxedAutoImplicit false

namespace Taskologic.Daemon

open Taskologic.Core Taskologic.Library

abbrev PrintJobId := ℕ

/-- What a client is sent to print. -/
structure PrintJob (Paper : Type) where
  taskId : TaskId
  paper : Paper
  deriving DecidableEq, Repr

structure QueuedJob (Paper : Type) where
  id : PrintJobId
  targetUid : Uid
  job : PrintJob Paper
  createdAt : Instant
  expiresAt : Instant
  attempts : ℕ
  lastError : Option Text
  inFlightSince : Option Instant
  deriving DecidableEq, Repr

/-- A connection, with what it said about itself. -/
structure ClientEntry where
  conn : ℕ
  uid : Uid
  hasPrinter : Bool
  printPriority : ℤ
  deriving DecidableEq, Repr

/-- The store, the queue and who is connected. -/
structure Desk (Paper : Type) where
  store : Store
  queue : List (QueuedJob Paper)
  /-- The ids handed out next. None is handed out twice. -/
  nextJob : PrintJobId
  clients : List ClientEntry
  nextConn : ℕ

/-- What becomes of a job that could not be printed. -/
inductive PrintAck where
  | requeued (attempts : ℕ)
  | dropped
  deriving DecidableEq, Repr

def maxPrintAttempts : ℕ := 3

namespace Desk

variable {Paper : Type} (desk : Desk Paper)

/-! ### The queue -/

def enqueuePrint (uid : Uid) (job : PrintJob Paper) (maxAge : ℤ) (now : Instant) : Desk Paper :=
  { desk with
    queue := desk.queue ++ [⟨desk.nextJob, uid, job, now, now + maxAge, 0, none, none⟩]
    nextJob := desk.nextJob + 1 }

/-- Jobs waiting for a client: not expired and not handed to one. -/
def pendingPrintJobs (uid : Uid) (now : Instant) : List (PrintJobId × PrintJob Paper) :=
  ((desk.queue.filter fun q ↦ q.targetUid == uid && decide (now < q.expiresAt) &&
    q.inFlightSince.isNone).insertionSort fun a b ↦
      a.createdAt < b.createdAt ∨ a.createdAt = b.createdAt ∧ a.id ≤ b.id).map fun q ↦ (q.id, q.job)

def markPrintInFlight (id : PrintJobId) (now : Instant) : Desk Paper :=
  { desk with queue := desk.queue.map fun q ↦
      if q.id = id then { q with inFlightSince := some now } else q }

/-- A job handed to a client that vanished goes back to pending. -/
def releaseStaleInFlight (olderThan : Instant) : Desk Paper :=
  { desk with queue := desk.queue.map fun q ↦
      if q.inFlightSince.any fun since ↦ decide (since < olderThan) then { q with inFlightSince := none }
      else q }

def ackPrintOk (id : PrintJobId) : Desk Paper :=
  { desk with queue := desk.queue.filter fun q ↦ q.id != id }

/-- A dropped job leaves a trace in the log, unless the task is gone. -/
def recordPrintDrop (store : Store) (job : PrintJob Paper) (reason : Text) (now : Instant) : Store :=
  match store.taskRow job.taskId with
  | some row =>
    { store with events := store.events ++ [⟨row.boardId, job.taskId, none, .printJobDropped reason, now⟩] }
  | none => store

/-- The job after one more failure. -/
def failed (error : Text) (q : QueuedJob Paper) : QueuedJob Paper :=
  { q with attempts := q.attempts + 1, lastError := error, inFlightSince := none }

def ackPrintErr (id : PrintJobId) (error : Text) (now : Instant) : Except AppError PrintAck × Desk Paper :=
  let marked : Desk Paper :=
    { desk with queue := desk.queue.map fun q ↦ if q.id = id then failed error q else q }
  match marked.queue.find? fun q ↦ q.id == id with
  | none => (.error .internal, marked)
  | some q =>
    if maxPrintAttempts ≤ q.attempts then
      (.ok .dropped, { marked.ackPrintOk id with
        store := recordPrintDrop desk.store q.job (text "failed " ++ text (toString q.attempts) ++
          text " times, last error: " ++ error) now })
    else (.ok (.requeued q.attempts), marked)

def expirePrintJobs (now : Instant) : Desk Paper :=
  let expired := desk.queue.filter fun q ↦ decide (q.expiresAt ≤ now)
  { desk with
    store := expired.foldl (fun store q ↦
      recordPrintDrop store q.job (text "expired before any printer took it") now) desk.store
    queue := desk.queue.filter fun q ↦ !decide (q.expiresAt ≤ now) }

def uidsWithPendingPrintJobs (now : Instant) : List Uid :=
  ((desk.queue.filter fun q ↦ decide (now < q.expiresAt) && q.inFlightSince.isNone).map
    QueuedJob.targetUid).dedup

/-! ### The clients -/

def register (uid : Uid) (hasPrinter : Bool) (printPriority : ℤ) : Desk Paper :=
  { desk with
    clients := desk.clients ++ [⟨desk.nextConn, uid, hasPrinter, printPriority⟩]
    nextConn := desk.nextConn + 1 }

def unregister (conn : ℕ) : Desk Paper :=
  { desk with clients := desk.clients.filter fun client ↦ client.conn != conn }

/-- The connection that print jobs go to: the highest priority among those with a printer, the oldest
connection on a tie. -/
def printerFor (uid : Uid) : Option ClientEntry :=
  ((desk.clients.filter fun client ↦ client.uid == uid && client.hasPrinter).insertionSort fun a b ↦
    b.printPriority < a.printPriority ∨ a.printPriority = b.printPriority ∧ a.conn ≤ b.conn).head?

/-- The client is still there to be sent something. -/
def reaches (client : ClientEntry) : Bool := desk.clients.any fun other ↦ other.conn == client.conn

end Desk

/-! ### Sections -/

/-- A section about the queue or the clients, with the type of what it answers. -/
inductive DeskWork (Paper : Type) : Type → Type where
  /-- What is to be printed and for whom. -/
  | compose (slips : Desk Paper → Except AppError (List (Uid × PrintJob Paper))) :
      DeskWork Paper (List (Uid × PrintJob Paper))
  /-- The time, which is read before the section that goes by it. -/
  | clock : DeskWork Paper Instant
  | enqueue (uid : Uid) (job : PrintJob Paper) (now : Instant) : DeskWork Paper Unit
  | printer (uid : Uid) : DeskWork Paper (Option ClientEntry)
  | pending (uid : Uid) (now : Instant) : DeskWork Paper (List (PrintJobId × PrintJob Paper))
  /-- Marks a job and sends it. Whether the client was still there. -/
  | hand (client : ClientEntry) (id : PrintJobId) (job : PrintJob Paper) (now : Instant) : DeskWork Paper Bool
  | ackOk (id : PrintJobId) : DeskWork Paper Unit
  | ackErr (id : PrintJobId) (error : Text) : DeskWork Paper PrintAck
  | expire (now : Instant) : DeskWork Paper Unit
  | release (olderThan : Instant) : DeskWork Paper Unit
  | waiting (now : Instant) : DeskWork Paper (List Uid)
  | register (uid : Uid) (hasPrinter : Bool) (printPriority : ℤ) : DeskWork Paper Unit
  | unregister (conn : ℕ) : DeskWork Paper Unit
  /-- Somebody's settings, which nothing here reads. -/
  | updatePrefs (uid : Uid) : DeskWork Paper Unit

/-- How long a job may wait, by the configuration. -/
def DeskWork.run {Paper α : Type} (maxAge : ℤ) (now : Instant) (desk : Desk Paper) :
    DeskWork Paper α → Except AppError α × Desk Paper
  | .compose slips => (slips desk, desk)
  | .clock => (.ok now, desk)
  | .enqueue uid job called => (.ok (), desk.enqueuePrint uid job maxAge called)
  | .printer uid => (.ok (desk.printerFor uid), desk)
  | .pending uid called => (.ok (desk.pendingPrintJobs uid called), desk)
  | .hand client id _ called => (.ok (desk.reaches client), desk.markPrintInFlight id called)
  | .ackOk id => (.ok (), desk.ackPrintOk id)
  | .ackErr id error => desk.ackPrintErr id error now
  | .expire called => (.ok (), desk.expirePrintJobs called)
  | .release olderThan => (.ok (), desk.releaseStaleInFlight olderThan)
  | .waiting called => (.ok (desk.uidsWithPendingPrintJobs called), desk)
  | .register uid hasPrinter printPriority => (.ok (), desk.register uid hasPrinter printPriority)
  | .unregister conn => (.ok (), desk.unregister conn)
  | .updatePrefs _ => (.ok (), desk)

/-- A section of the daemon, about the queue or about anything else. -/
inductive DeskSection (Paper α : Type) where
  | desk (work : DeskWork Paper α)
  | store (body : Section α)

/-- What a section does. -/
def deskSemantics (Paper : Type) (maxAge : ℤ) : Semantics (DeskSection Paper) AppError Outside (Desk Paper) where
  run
    | .desk work, outside, desk => work.run maxAge outside.now desk
    | .store body, outside, desk =>
      ((semantics.run body outside desk.store).1,
        { desk with store := (semantics.run body outside desk.store).2 })

abbrev DeskCall (Paper ρ : Type) : Type 1 := Thread (DeskSection Paper) AppError ρ

section Calls

variable {Paper α : Type}

def atDesk (work : DeskWork Paper α) : DeskCall Paper α := Thread.call (.desk work)

/-- What a request does beside the queue. -/
def beside (call : Call α) : DeskCall Paper α := call.lift .store

/-! ### Handing out -/

/-- Job after job, until the client is gone. -/
def handAll (client : ClientEntry) (now : Instant) :
    List (PrintJobId × PrintJob Paper) → DeskCall Paper Unit
  | [] => pure ()
  | (id, job) :: rest => do
    let sent ← atDesk (.hand client id job now)
    if sent = true then handAll client now rest else pure ()

/-- Hands every pending job to the best connected printer client, if there is one. -/
def dispatchPrintJobs (uid : Uid) : DeskCall Paper Unit := do
  let client ← atDesk (.printer uid)
  match client with
  | none => pure ()
  | some client => do
    let now ← atDesk .clock
    let jobs ← atDesk (.pending uid now)
    handAll client now jobs

/-- Queues a job and tries to hand it out right away. -/
def enqueuePrint (uid : Uid) (job : PrintJob Paper) : DeskCall Paper Unit := do
  let now ← atDesk .clock
  atDesk (.enqueue uid job now)
  dispatchPrintJobs uid

/-! ### What may be under way -/

/-- What a session may ask for. -/
inductive DeskRequest (Paper : Type) where
  /-- A connection is opened. -/
  | hello (hostTz : Tz) (forceAdmin hasPrinter : Bool) (printPriority : ℤ)
  /-- The connection ends. -/
  | close (conn : ℕ)
  | printTask (task : TaskId) (build : Board × Task → Desk Paper → Except AppError (List (PrintJob Paper)))
  | ackPrintJob (job : PrintJobId) (error : Option Text)
  | updatePrefs
  /-- Anything else, with the slips that come of it. -/
  | other (req : Request) (slips : Response → Desk Paper → List (Uid × PrintJob Paper))

/-- A slip that cannot be queued holds nothing up. -/
def printSlips (slips : List (Uid × PrintJob Paper)) : DeskCall Paper Unit := do
  let _ ← Thread.each (fun slip ↦ (enqueuePrint slip.1 slip.2).attempt) slips
  pure ()

def DeskRequest.call (actor : Actor) : DeskRequest Paper → DeskCall Paper Unit
  | .hello hostTz forceAdmin hasPrinter printPriority => do
    let user ← beside (run (.login actor.uid hostTz forceAdmin))
    atDesk (.register user.uid hasPrinter printPriority)
    if hasPrinter = true then do
      let _ ← (dispatchPrintJobs actor.uid).attempt
      pure ()
    else pure ()
  | .close conn => atDesk (.unregister conn)
  | .printTask task build => do
    let loaded ← beside (loadTask actor task)
    let slips ← atDesk (.compose fun desk ↦ (build loaded desk).map fun jobs ↦
      jobs.map fun job ↦ (actor.uid, job))
    let _ ← Thread.each (fun slip ↦ enqueuePrint slip.1 slip.2) slips
    pure ()
  | .ackPrintJob job none => atDesk (.ackOk job)
  | .ackPrintJob job (some error) => do
    let _ ← atDesk (.ackErr job error)
    pure ()
  | .updatePrefs => atDesk (.updatePrefs actor.uid)
  | .other req slips => do
    let response ← beside (handle actor req)
    let owed ← atDesk (.compose fun desk ↦ .ok (slips response desk))
    printSlips owed

def printDated (slips : Desk Paper → Except AppError (List (Uid × PrintJob Paper))) :
    DeskCall Paper Unit := do
  let owed ← atDesk (.compose slips)
  let _ ← Thread.each (fun slip ↦ enqueuePrint slip.1 slip.2) owed
  pure ()

/-- Expired jobs go, jobs of clients that vanished are released, and what is pending is handed out. -/
def printQueueHousekeeping : DeskCall Paper Unit := do
  let now ← atDesk .clock
  atDesk (.expire now)
  atDesk (.release (now - 120))
  let uids ← atDesk (.waiting now)
  let _ ← Thread.each dispatchPrintJobs uids
  pure ()

/-- Everything that may be under way: what a session asks for, and a pass of the scheduler. The slips whose
dates have come are made out and queued one lot after another. -/
inductive DeskJob (Paper : Type) where
  | request (actor : Actor) (req : DeskRequest Paper)
  | tick (dated : List (Desk Paper → Except AppError (List (Uid × PrintJob Paper))))

def DeskJob.call : DeskJob Paper → DeskCall Paper Unit
  | .request actor req => req.call actor
  | .tick dated => do
    beside tickOnce
    let _ ← Thread.each printDated dated
    printQueueHousekeeping

/-- A daemon with things to do. -/
def attend (desk : Desk Paper) (jobs : List (DeskJob Paper)) :
    Pool (DeskSection Paper) AppError (Desk Paper) Unit := ⟨desk, jobs.map DeskJob.call⟩

end Calls

end Taskologic.Daemon
