import Mathlib.Data.List.Basic

/-!
# Bounded channels

A channel between one sender and one receiver holds at most `capacity` messages,
first in, first out.  A send waits for room, and fails once the receiver is
gone; a receive waits for a message, and gives up once the sender is gone and
nothing is left.
-/

/-- A channel that holds at most `capacity` messages.  The bound is a field, so
no operation can exceed it. -/
structure Channel (α : Type) (capacity : ℕ) where
  queue : List α
  length_le : queue.length ≤ capacity
  senderDropped : Bool
  receiverDropped : Bool

namespace Channel

variable {α : Type} {capacity : ℕ} (c : Channel α capacity)

/-- A channel with both ends open and nothing in it. -/
def empty (α : Type) (capacity : ℕ) : Channel α capacity := ⟨[], Nat.zero_le _, false, false⟩

/-- The message `m` at the end of the queue. -/
def push (m : α) (room : c.queue.length < capacity) : Channel α capacity :=
  { c with
    queue := c.queue ++ [m]
    length_le := by rw [List.length_append]; exact room }

/-- The first message taken out. -/
def pop : Channel α capacity :=
  { c with
    queue := c.queue.tail
    length_le := by rw [List.length_tail]; exact Nat.le_trans (Nat.sub_le _ _) c.length_le }

/-- The sending end is closed: what is in the queue can still be received. -/
def dropSender : Channel α capacity := { c with senderDropped := true }

/-- The receiving end is closed: every later send fails. -/
def dropReceiver : Channel α capacity := { c with receiverDropped := true }

/-- Send a message: `none` while there is no room, else whether the message is
in.

`none` stands for a task that waits: a step of the system in which it goes on is
one where `send` is `some`. -/
def send (m : α) : Option (Channel α capacity × Bool) :=
  if c.receiverDropped then some (c, false)
  else if room : c.queue.length < capacity then some (c.push m room, true)
  else none

/-- Receive a message: `none` while there is none, else the message, unless all
have been received and the sender is gone. -/
def recv : Option (Channel α capacity × Option α) :=
  match c.queue.head? with
  | some m => some (c.pop, some m)
  | none => if c.senderDropped then some (c, none) else none

section Specs

variable {c} {c' : Channel α capacity} {m : α}

/-- While the receiver is there, a message sent is in the queue. -/
theorem send_eq_some {sent : Bool} (hreceiver : c.receiverDropped = false)
    (h : c.send m = some (c', sent)) :
    c.queue.length < capacity ∧ sent = true ∧ c'.queue = c.queue ++ [m] ∧
      c'.senderDropped = c.senderDropped ∧ c'.receiverDropped = false := by
  unfold send at h
  rw [if_neg (by simp [hreceiver])] at h
  split at h
  · next room =>
      cases h
      exact ⟨room, rfl, rfl, rfl, hreceiver⟩
  · cases h

/-- A send ends once there is room. -/
theorem exists_send (m : α) (room : c.queue.length < capacity) : ∃ r, c.send m = some r := by
  unfold send
  split <;> exact ⟨_, rfl⟩

/-- What a receive did: it took the first message, or found nothing and nobody
to wait for. -/
theorem recv_eq_some {received : Option α} (h : c.recv = some (c', received)) :
    (∃ m, received = some m ∧ c.queue = m :: c'.queue ∧ c'.senderDropped = c.senderDropped ∧
      c'.receiverDropped = c.receiverDropped) ∨
    (received = none ∧ c.queue = [] ∧ c.senderDropped = true ∧ c' = c) := by
  unfold recv at h
  split at h
  · next m hhead =>
      cases h
      obtain ⟨rest, hqueue⟩ := List.head?_eq_some_iff.mp hhead
      exact .inl ⟨m, rfl, by simp [pop, hqueue], rfl, rfl⟩
  · next hhead =>
      split at h
      · next hdropped =>
          cases h
          exact .inr ⟨rfl, List.head?_eq_none_iff.mp hhead, hdropped, rfl⟩
      · cases h

/-- A receive ends once there is a message, or nobody to send one. -/
theorem exists_recv (h : c.queue ≠ [] ∨ c.senderDropped = true) : ∃ r, c.recv = some r := by
  unfold recv
  cases hqueue : c.queue with
  | cons m rest => exact ⟨_, rfl⟩
  | nil =>
      have hdropped := h.resolve_left fun hne => hne hqueue
      simp [hdropped]

end Specs

end Channel
