import Mathlib.Data.List.Basic

/-!
# Bounded queues that keep message boundaries

A queue holds at most `limit` messages of at most `size` cells each. A reader gets the whole
message that has been in the queue longest.
-/

namespace LinuxSystemPrograms.MessageQueue

set_option autoImplicit false

structure Message (Cell : Type*) (size : Nat) where
  body : List Cell
  bounded : body.length ≤ size

structure Queue (Cell : Type*) (size limit : Nat) where
  messages : List (Message Cell size)
  bounded : messages.length ≤ limit

variable {Cell : Type*} {size limit : Nat}

namespace Queue

def empty : Queue Cell size limit := ⟨[], Nat.zero_le limit⟩

/-- A full queue has no place: the sender waits. -/
def send (queue : Queue Cell size limit) (message : Message Cell size) :
    Option (Queue Cell size limit) :=
  if room : queue.messages.length < limit then
    some ⟨queue.messages ++ [message], by
      rw [List.length_append, List.length_singleton]
      omega⟩
  else none

/-- An empty queue has no message: the reader waits. -/
def receive : Queue Cell size limit → Option (Message Cell size × Queue Cell size limit)
  | ⟨[], _⟩ => none
  | ⟨first :: rest, bounded⟩ => some (first, ⟨rest, by
      rw [List.length_cons] at bounded
      omega⟩)

def bodies (queue : Queue Cell size limit) : List (List Cell) := queue.messages.map Message.body

theorem bodies_eq_nil {queue : Queue Cell size limit} :
    queue.bodies = [] ↔ queue.messages = [] :=
  List.map_eq_nil_iff

theorem send_bodies {queue after : Queue Cell size limit} {message : Message Cell size}
    (sent : queue.send message = some after) :
    after.bodies = queue.bodies ++ [message.body] := by
  unfold send at sent
  split at sent
  · rw [← Option.some.inj sent, bodies, List.map_append, bodies]
    rfl
  · cases sent

theorem send_of_room {queue : Queue Cell size limit} (message : Message Cell size)
    (room : queue.messages.length < limit) : ∃ after, queue.send message = some after :=
  ⟨_, dif_pos room⟩

theorem receive_bodies {queue after : Queue Cell size limit} {message : Message Cell size}
    (received : queue.receive = some (message, after)) :
    queue.bodies = message.body :: after.bodies := by
  match queue with
  | ⟨[], _⟩ => cases received
  | ⟨first :: rest, bounded⟩ =>
      rw [receive, Option.some.injEq, Prod.mk.injEq] at received
      rw [← received.1, ← received.2]
      rfl

theorem receive_of_nonempty {queue : Queue Cell size limit} (nonempty : queue.messages ≠ []) :
    ∃ message after, queue.receive = some (message, after) := by
  match queue with
  | ⟨[], _⟩ => exact absurd rfl nonempty
  | ⟨first :: rest, bounded⟩ => exact ⟨first, _, rfl⟩

end Queue

end LinuxSystemPrograms.MessageQueue
