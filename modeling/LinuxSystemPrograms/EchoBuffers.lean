import LinuxSystemPrograms.ConnectionAccount

/-!
# The buffers of a connection without their stale cells

`LineEcho` leaves out the bytes of `send_buf` that are already sent but not yet reset.
`Buffers` has them, so that two records with equal `Buffers` agree in every cell that a
cursor covers, whatever the other cells hold. The two handlers respect this: what they do
to the record, and what they return and log, depends on its `Buffers` only.
-/

namespace LinuxSystemPrograms.EchoBuffers

open LinuxSystemPrograms.CharArray
open LinuxSystemPrograms.ConnectionAccount
open LinuxSystemPrograms.EchoClient
open LinuxSystemPrograms.Framing
open LinuxSystemPrograms.Sockets

set_option autoImplicit false

structure Buffers where
  echo : LineEcho
  written : List Byte

namespace Buffers

def empty : Buffers := ⟨.empty, []⟩

def receive (buffers : Buffers) (result : RecvResult) : Buffers :=
  ⟨(buffers.echo.receive result).1,
    buffers.written ++ (buffers.echo.receive result).1.queued.drop buffers.echo.queued.length⟩

def flush (buffers : Buffers) (result : SendResult) : Buffers :=
  ⟨(buffers.echo.flush result).1,
    if (buffers.echo.flush result).2 = .flushed then [] else buffers.written⟩

end Buffers

/-- `send_buf[0..send_len)`. -/
def written (client : Client) : List Byte :=
  slice client.sendBuf 0 client.sendLen (by have := client.lenBound; omega)

def contents (client : Client) : Buffers := ⟨client.view, written client⟩

/-- Equal contents are equal cursors and equal bytes below them. -/
theorem cursors_of_contents {first second : Client} (same : contents first = contents second) :
    first.used = second.used ∧ first.part = second.part ∧ first.sendLen = second.sendLen ∧
      first.sendOffset = second.sendOffset ∧ written first = written second := by
  have views : first.view = second.view := congrArg Buffers.echo same
  have parts : first.part = second.part := congrArg LineEcho.part views
  have queues : first.queued = second.queued := congrArg LineEcho.queued views
  have lengths : first.sendLen = second.sendLen := congrArg LineEcho.filled views
  have used := congrArg List.length parts
  rw [Client.part_length, Client.part_length] at used
  have rest := congrArg List.length queues
  rw [Client.queued_length, Client.queued_length] at rest
  have firstBound := first.offsetBound
  have secondBound := second.offsetBound
  exact ⟨used, parts, lengths, by omega, congrArg Buffers.written same⟩

theorem written_of_empty {client : Client} (empty : client.sendLen = 0) : written client = [] := by
  apply List.eq_nil_of_length_eq_zero
  rw [written, slice_length, empty]

@[simp] theorem init_contents : contents Client.init = Buffers.empty := by
  rw [contents, Client.init_view, written_of_empty rfl]
  rfl

@[simp] theorem reset_contents (client : Client) : contents client.reset = Buffers.empty := by
  rw [contents, Client.reset_view, written_of_empty rfl]
  rfl

theorem move_line_written (client : Client) (msgLen : Nat) (inMessage : msgLen ≤ client.used)
    (fits : client.sendLen + msgLen ≤ sendBufSize) :
    written (client.moveLine msgLen inMessage fits) =
      written client ++ client.part.take msgLen := by
  have bound := client.usedBound
  have line : slice client.recvMessage 0 msgLen (by omega) = client.part.take msgLen :=
    slice_take client.recvMessage (by omega) (by omega) inMessage
  rw [← line]
  unfold written Client.moveLine
  exact slice_memcpy_append client.sendBuf (Nat.zero_le _) (by simpa using fits) _
    (by simp only [slice_length, Nat.sub_zero])

/-- The extraction loop writes behind what it finds in `send_buf`. -/
theorem extract_lines_written (client : Client) :
    ∃ moved, written (Client.extractLines client).1 = written client ++ moved ∧
      (Client.extractLines client).1.queued = client.queued ++ moved := by
  fun_induction Client.extractLines client with
  | case1 client absent => exact ⟨[], (List.append_nil _).symm, (List.append_nil _).symm⟩
  | case2 client msgLen found fits ih =>
      obtain ⟨moved, writtenEq, queuedEq⟩ := ih
      rw [move_line_written] at writtenEq
      rw [Client.move_line_queued] at queuedEq
      refine ⟨client.part.take msgLen ++ moved, ?_, ?_⟩
      · rw [writtenEq, List.append_assoc]
      · rw [queuedEq, List.append_assoc]
  | case3 client msgLen found full =>
      exact ⟨[], (List.append_nil _).symm, (List.append_nil _).symm⟩

theorem on_recv_written (client : Client) (result : RecvResult)
    (bounded : ∀ chunk, result = .ok chunk → chunk.length ≤ recvBufSize) :
    ∃ moved, written (client.onRecv result bounded).1 = written client ++ moved ∧
      (client.onRecv result bounded).1.queued = client.queued ++ moved := by
  have unchanged : ∃ moved, written client = written client ++ moved ∧
      client.queued = client.queued ++ moved :=
    ⟨[], (List.append_nil _).symm, (List.append_nil _).symm⟩
  match result with
  | .ok chunk =>
      simp only [Client.onRecv]
      split_ifs with eof fits
      · exact unchanged
      · exact extract_lines_written _
      · exact unchanged
  | .error reason => cases reason <;> exact unchanged

/-- `handle_recv` refines `Buffers.receive`. -/
theorem receive_contents (client : Client) (ready : RecvResult) :
    contents (client.receive ready).1 = (contents client).receive (recv recvBufSize ready) := by
  have viewEq := (Client.receive_view client ready).1
  obtain ⟨moved, writtenEq, queuedEq⟩ : ∃ moved,
      written (client.receive ready).1 = written client ++ moved ∧
        (client.receive ready).1.queued = client.queued ++ moved := on_recv_written client _ _
  have echoQueued : (client.view.receive (recv recvBufSize ready)).1.queued =
      client.queued ++ moved := by
    rw [← viewEq]
    exact queuedEq
  have behind : (client.view.receive (recv recvBufSize ready)).1.queued.drop
      client.view.queued.length = moved := by
    rw [echoQueued]
    exact List.drop_left
  unfold contents Buffers.receive
  rw [viewEq, writtenEq, behind]

theorem advance_written (client : Client) (count : Nat)
    (accepted : count ≤ client.sendLen - client.sendOffset) :
    written (client.advance count accepted).1 =
      if (client.advance count accepted).2 = .flushed then [] else written client := by
  unfold Client.advance
  by_cases done : client.sendLen = client.sendOffset + count
  · rw [if_pos done]
    exact written_of_empty rfl
  · rw [if_neg done]
    rfl

theorem on_send_written (client : Client) (result : SendResult)
    (bounded : ∀ count, result = .ok count → count ≤ client.sendLen - client.sendOffset) :
    written (client.onSend result bounded).1 =
      if (client.onSend result bounded).2 = .flushed then [] else written client := by
  match result with
  | .ok 0 => rfl
  | .ok (count + 1) => exact advance_written client (count + 1) (bounded (count + 1) rfl)
  | .error reason => cases reason <;> rfl

theorem flush_written (client : Client) (room : SendResult) :
    written (client.flush room).1 =
      if (client.flush room).2 = .flushed then [] else written client := by
  unfold Client.flush
  by_cases idle : client.sendLen = client.sendOffset
  · rw [if_pos idle]
    rfl
  · rw [if_neg idle]
    exact on_send_written client _ _

/-- `handle_send` refines `Buffers.flush`. -/
theorem flush_contents (client : Client) (room : SendResult) :
    contents (client.flush room).1 =
      (contents client).flush (send client.queued.length room) := by
  obtain ⟨viewEq, exitEq, _⟩ := Client.flush_view client room
  have writtenEq := flush_written client room
  unfold contents Buffers.flush
  rw [viewEq, writtenEq, exitEq]

end LinuxSystemPrograms.EchoBuffers
