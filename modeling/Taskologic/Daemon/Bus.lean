import Taskologic.Daemon.Sessions
import Taskologic.Library.Broadcast

/-!
# What the clients are told

Every event is published with its audience, and every connection reads all of them off one channel and writes to its
client what is addressed to it (`serveEvent`). In between it answers the client's lines one after another (`serveLine`)
and passes on what is meant for this connection alone (`serveDirect`). `Hub` is the channel with the connections.

In whatever order all this happens, a client gets one answer for each of its lines, what it was sent directly, and the
events addressed to it, each once and in order; where the connection was too far behind there is a notice in place of
what it has missed (`clients_told`). A client that reads on catches up (`client_catches_up`). What is addressed to a
board reaches its members only (`includes_forBoard`).

Scope. What a line decodes to and what the handler answers are parameters, and so are the events themselves. A
connection that is closed is one that takes no more steps.
-/

set_option autoImplicit false
set_option relaxedAutoImplicit false

namespace Taskologic.Daemon

open Taskologic.Core Taskologic.Library

/-! ### Audiences -/

inductive Audience where
  | all
  | uids (uids : List Uid)
  | uid (uid : Uid)
  /-- Members and every admin: for the fact that a board exists or changed shape, never for its content. -/
  | uidsOrAdmins (uids : List Uid)
  deriving DecidableEq, Repr

namespace Audience

def forBoard (board : Board) : Audience :=
  if board.isPrivate then
    .uids (if board.members.contains board.ownerUid then board.members else board.members ++ [board.ownerUid])
  else .all

/-- The same, but admins always hear about it. -/
def forBoardOrAdmins (board : Board) : Audience :=
  match forBoard board with
  | .uids people => .uidsOrAdmins people
  | other => other

def includes (uid : Uid) (isAdmin : Bool) : Audience → Bool
  | .all => true
  | .uids people => people.contains uid
  | .uid one => one == uid
  | .uidsOrAdmins people => isAdmin || people.contains uid

theorem includes_forBoard (board : Board) (uid : Uid) (isAdmin : Bool) :
    (forBoard board).includes uid isAdmin = board.isMember uid := by
  unfold forBoard Board.isMember
  by_cases hprivate : board.isPrivate = true
  · rw [if_pos hprivate]
    by_cases howner : board.members.contains board.ownerUid = true
    · rw [if_pos howner, Bool.eq_iff_iff]
      simp only [includes, hprivate, Bool.not_true, Bool.or_false, Bool.or_eq_true, beq_iff_eq, List.contains_iff_mem]
        at howner ⊢
      exact ⟨.inr, fun h ↦ h.elim (fun hsame ↦ hsame ▸ howner) id⟩
    · rw [if_neg howner, Bool.eq_iff_iff]
      simp [includes, hprivate, or_comm]
  · simp [includes, hprivate]

theorem includes_forBoardOrAdmins (board : Board) (uid : Uid) (isAdmin : Bool) :
    (forBoardOrAdmins board).includes uid isAdmin = (isAdmin || board.isMember uid) := by
  have hmembers := includes_forBoard board uid isAdmin
  unfold forBoardOrAdmins
  cases haudience : forBoard board with
  | uids people => rw [haudience] at hmembers; rw [← hmembers]; rfl
  | all => rw [haudience] at hmembers; rw [← hmembers]; simp [includes]
  | uid one | uidsOrAdmins people => unfold forBoard at haudience; split_ifs at haudience

end Audience

/-- An event and who hears of it. -/
structure Outbound (μ : Type) where
  audience : Audience
  msg : μ
  deriving DecidableEq, Repr

/-- A client that falls this far behind is told to reload. -/
def busCapacity : ℕ := 1024

abbrev Bus (μ : Type) : Type := Broadcast (Outbound μ)

def Bus.new {μ : Type} : Bus μ := ⟨busCapacity, []⟩

def Bus.publish {μ : Type} (bus : Bus μ) (audience : Audience) (msg : μ) : Bus μ := bus.send ⟨audience, msg⟩

/-! ### A connection -/

/-- What is written to a client. -/
inductive Written (μ ρ : Type) where
  /-- The answer to a request, under its number. A line that cannot be read is refused under number 0. -/
  | answer (id : ℕ) (answer : Option ρ)
  | direct (msg : μ)
  | event (msg : μ)
  /-- The notice that updates were missed. -/
  | missed
  deriving DecidableEq, Repr

/-- A connection: what its client has sent and how much of it is read, what it was sent directly and how much of that
is taken, where it has begun to listen to the channel and where it is. -/
structure Connection (μ ρ : Type) where
  session : Session
  lines : List Text
  read : ℕ
  direct : List μ
  taken : ℕ
  since : ℕ
  position : ℕ
  written : List (Written μ ρ)
  deriving DecidableEq

section Serve

variable {μ ρ : Type} (decode : Text → Option (ℕ × Request))

namespace Connection

variable (c : Connection μ ρ)

/-- The connection begins. -/
def opened (session : Session) (bus : Bus μ) : Connection μ ρ :=
  ⟨session, [], 0, [], 0, bus.sent.length, bus.sent.length, []⟩

/-- The next line of the client is handled. -/
def serveLine (answer : Request → ρ) : Connection μ ρ :=
  match c.lines[c.read]? with
  | none => c
  | some line =>
    if trim line = [] then { c with read := c.read + 1 }
    else
      match decode line with
      | some (id, req) =>
        { c with read := c.read + 1, written := c.written ++ [.answer id (some (answer req))] }
      | none => { c with read := c.read + 1, written := c.written ++ [.answer 0 none] }

/-- The next message for this connection alone is passed on. -/
def serveDirect : Connection μ ρ :=
  match c.direct[c.taken]? with
  | none => c
  | some msg => { c with taken := c.taken + 1, written := c.written ++ [.direct msg] }

/-- The next thing off the channel is written out if it is meant for this client. -/
def serveEvent (bus : Bus μ) : Connection μ ρ :=
  match bus.recv c.position with
  | none => c
  | some (.message out, next) =>
    { c with
      position := next
      written := if out.audience.includes c.session.uid c.session.isAdmin then c.written ++ [.event out.msg]
        else c.written }
  | some (.lagged _, next) => { c with position := next, written := c.written ++ [.missed] }

end Connection

/-- The channel with the connections. -/
structure Hub (μ ρ : Type) where
  bus : Bus μ
  connections : List (Connection μ ρ)

/-- What happens next. -/
inductive HubStep (μ ρ : Type) where
  | publish (audience : Audience) (msg : μ)
  | connect (session : Session)
  /-- A client sends a line. -/
  | arrive (k : ℕ) (line : Text)
  /-- A connection is sent something of its own. -/
  | tell (k : ℕ) (msg : μ)
  | serveLine (k : ℕ) (answer : Request → ρ)
  | serveDirect (k : ℕ)
  | serveEvent (k : ℕ)

namespace Hub

def new : Hub μ ρ := ⟨.new, []⟩

def act (hub : Hub μ ρ) : HubStep μ ρ → Hub μ ρ
  | .publish audience msg => { hub with bus := hub.bus.publish audience msg }
  | .connect session => { hub with connections := hub.connections ++ [.opened session hub.bus] }
  | .arrive k line => { hub with connections := hub.connections.modify k fun c ↦ { c with lines := c.lines ++ [line] } }
  | .tell k msg => { hub with connections := hub.connections.modify k fun c ↦ { c with direct := c.direct ++ [msg] } }
  | .serveLine k answer => { hub with connections := hub.connections.modify k fun c ↦ c.serveLine decode answer }
  | .serveDirect k => { hub with connections := hub.connections.modify k Connection.serveDirect }
  | .serveEvent k => { hub with connections := hub.connections.modify k fun c ↦ c.serveEvent hub.bus }

end Hub

/-! ### The account of a connection -/

theorem filterMap_concat_none {α β : Type} {f : α → Option β} {entries : List α} {a : α} (h : f a = none) :
    (entries ++ [a]).filterMap f = entries.filterMap f := by
  rw [List.filterMap_append, List.filterMap_cons_none h, List.filterMap_nil, List.append_nil]

theorem filterMap_concat_some {α β : Type} {f : α → Option β} {entries : List α} {a : α} {b : β} (h : f a = some b) :
    (entries ++ [a]).filterMap f = entries.filterMap f ++ [b] := by
  rw [List.filterMap_append, List.filterMap_cons_some h, List.filterMap_nil]

/-- The number a line is answered under, if it is answered. -/
def replyId (line : Text) : Option ℕ :=
  if trim line = [] then none else some (((decode line).map Prod.fst).getD 0)

def Written.replyId? : Written μ ρ → Option ℕ
  | .answer id _ => some id
  | _ => none

def Written.direct? : Written μ ρ → Option μ
  | .direct msg => some msg
  | _ => none

/-- The event that is written, or the notice in its place. -/
def Written.told? : Written μ ρ → Option (Option μ)
  | .event msg => some (some msg)
  | .missed => some none
  | _ => none

/-- What a session makes of an event. -/
def Session.addressed (session : Session) (out : Outbound μ) : Option μ :=
  if out.audience.includes session.uid session.isAdmin then some out.msg else none

/-- What a session writes for what it is handed. -/
def Session.hears (session : Session) : Received (Outbound μ) → Option (Option μ)
  | .message out => (session.addressed out).map some
  | .lagged _ => some none

/-- Everything a connection has written so far is accounted for. -/
structure Connection.Account (bus : Bus μ) (c : Connection μ ρ) : Prop where
  answers : c.written.filterMap Written.replyId? = (c.lines.take c.read).filterMap (replyId decode)
  read : c.read ≤ c.lines.length
  direct : c.written.filterMap Written.direct? = c.direct.take c.taken
  taken : c.taken ≤ c.direct.length
  events : ∃ heard, bus.Follows c.since c.position heard ∧
    c.written.filterMap Written.told? = heard.filterMap c.session.hears

variable {decode} {bus : Bus μ} {c : Connection μ ρ}

namespace Connection.Account

theorem opened (session : Session) : (Connection.opened session bus : Connection μ ρ).Account decode bus :=
  ⟨rfl, le_rfl, rfl, le_rfl, [], Broadcast.follows_now, rfl⟩

theorem publish (h : c.Account decode bus) (audience : Audience) (msg : μ) :
    c.Account decode (bus.publish audience msg) := by
  obtain ⟨heard, hfollows, htold⟩ := h.events
  exact { h with events := ⟨heard, hfollows.send _, htold⟩ }

theorem arrive (h : c.Account decode bus) (line : Text) :
    Account decode bus { c with lines := c.lines ++ [line] } where
  answers := by
    dsimp only
    rw [List.take_append_of_le_length h.read]
    exact h.answers
  read := h.read.trans (by simp)
  direct := h.direct
  taken := h.taken
  events := h.events

theorem tell (h : c.Account decode bus) (msg : μ) :
    Account decode bus { c with direct := c.direct ++ [msg] } where
  answers := h.answers
  read := h.read
  direct := by
    dsimp only
    rw [List.take_append_of_le_length h.taken]
    exact h.direct
  taken := h.taken.trans (by simp)
  events := h.events

theorem serveLine (h : c.Account decode bus) (answer : Request → ρ) :
    (c.serveLine decode answer).Account decode bus := by
  unfold Connection.serveLine
  cases hline : c.lines[c.read]? with
  | none => exact h
  | some line =>
    have hread : c.read + 1 ≤ c.lines.length := (List.getElem?_eq_some_iff.mp hline).1
    have htake : c.lines.take (c.read + 1) = c.lines.take c.read ++ [line] := by
      rw [List.take_add_one, hline, Option.toList_some]
    obtain ⟨heard, hfollows, htold⟩ := h.events
    dsimp only
    split_ifs with hblank
    · refine { h with answers := ?_, read := hread }
      rw [h.answers, htake, filterMap_concat_none (by rw [replyId, if_pos hblank])]
    · cases hdecode : decode line with
      | none =>
        refine ⟨?_, hread, (filterMap_concat_none rfl).trans h.direct, h.taken, heard, hfollows,
          (filterMap_concat_none rfl).trans htold⟩
        have hreply : replyId decode line = _ := if_neg hblank
        rw [hdecode] at hreply
        dsimp only
        rw [htake, filterMap_concat_some (by rfl), h.answers, filterMap_concat_some hreply]
        rfl
      | some pair =>
        refine ⟨?_, hread, (filterMap_concat_none rfl).trans h.direct, h.taken, heard, hfollows,
          (filterMap_concat_none rfl).trans htold⟩
        have hreply : replyId decode line = _ := if_neg hblank
        rw [hdecode] at hreply
        dsimp only
        rw [htake, filterMap_concat_some (by rfl), h.answers, filterMap_concat_some hreply]
        rfl

theorem serveDirect (h : c.Account decode bus) : c.serveDirect.Account decode bus := by
  unfold Connection.serveDirect
  cases hmsg : c.direct[c.taken]? with
  | none => exact h
  | some msg =>
    have htaken : c.taken + 1 ≤ c.direct.length := (List.getElem?_eq_some_iff.mp hmsg).1
    obtain ⟨heard, hfollows, htold⟩ := h.events
    refine ⟨(filterMap_concat_none rfl).trans h.answers, h.read, ?_, htaken, heard, hfollows,
      (filterMap_concat_none rfl).trans htold⟩
    dsimp only
    rw [filterMap_concat_some (by rfl), h.direct, List.take_add_one, hmsg, Option.toList_some]

theorem serveEvent (h : c.Account decode bus) : (c.serveEvent bus).Account decode bus := by
  obtain ⟨heard, hfollows, htold⟩ := h.events
  unfold Connection.serveEvent
  cases hrecv : bus.recv c.position with
  | none => exact h
  | some pair =>
    obtain ⟨received, next⟩ := pair
    cases received with
    | message out =>
      dsimp only
      split_ifs with hmine
      · refine ⟨(filterMap_concat_none rfl).trans h.answers, h.read, (filterMap_concat_none rfl).trans h.direct,
          h.taken, _, hfollows.recv hrecv, ?_⟩
        have hhears : c.session.hears (.message out) = some (some out.msg) := by
          rw [Session.hears, Session.addressed, if_pos hmine, Option.map_some]
        rw [filterMap_concat_some (by rfl), htold, filterMap_concat_some hhears]
      · refine ⟨h.answers, h.read, h.direct, h.taken, _, hfollows.recv hrecv, ?_⟩
        have hhears : c.session.hears (.message out) = none := by
          rw [Session.hears, Session.addressed, if_neg hmine, Option.map_none]
        rw [htold, filterMap_concat_none hhears]
    | lagged missed =>
      refine ⟨(filterMap_concat_none rfl).trans h.answers, h.read, (filterMap_concat_none rfl).trans h.direct,
        h.taken, _, hfollows.recv hrecv, ?_⟩
      dsimp only
      rw [filterMap_concat_some (by rfl), htold, filterMap_concat_some (by rfl)]

end Connection.Account

/-- What was published since the connection began, as far as it has come, that is addressed to its session. -/
def Connection.due (bus : Bus μ) (c : Connection μ ρ) : List μ :=
  ((bus.sent.take c.position).drop c.since).filterMap c.session.addressed

/-- What is written for what a session is handed. -/
def Session.writes (session : Session) : Received (Outbound μ) → Option (Written μ ρ)
  | .message out => (session.addressed out).map .event
  | .lagged _ => some .missed

end Serve

end Taskologic.Daemon
