import LinuxSystemPrograms.EchoClient

/-!
# What a connection's log and its record know about each other

`recvHandler` and `sendHandler` are the two handlers with the system call
each one makes and the value it returns. The lemmas say, in terms of the log, what one
call does to the account of a connection: bytes sent, bytes queued and the unfinished
line add up to the bytes received.
-/

namespace LinuxSystemPrograms.ConnectionAccount

open LinuxSystemPrograms.EchoClient
open LinuxSystemPrograms.Framing
open LinuxSystemPrograms.Sockets

set_option autoImplicit false

/-- `handle_recv` of a server whose return values are given by `code`. -/
def recvHandler (code : RecvExit → Int) (client : Client) (ready : RecvResult) :
    Client × Int × List Event :=
  let (after, exit) := client.receive ready
  (after, code exit,
    [.recv (recv recvBufSize ready), .note (.ofRecv exit (code exit))])

/-- `handle_send` of a server whose return values are given by `code`; it makes no system
call when nothing is queued. -/
def sendHandler (code : SendExit → Int) (client : Client) (room : SendResult) :
    Client × Int × List Event :=
  let (after, exit) := client.flush room
  let call := if client.sendLen = client.sendOffset then []
    else [.send client.queued (send (client.sendLen - client.sendOffset) room)]
  (after, code exit, call ++ [.note (.ofSend exit (code exit))])

/-- The log entries of one `handle_recv`, read off the abstract record. -/
def recvEvents (code : RecvExit → Int) (echo : LineEcho) (result : RecvResult) : List Event :=
  [.recv result, .note (.ofRecv (echo.receive result).2 (code (echo.receive result).2))]

def sendEvents (code : SendExit → Int) (echo : LineEcho) (result : SendResult) : List Event :=
  (if echo.queued = [] then [] else [.send echo.queued result]) ++
    [.note (.ofSend (echo.flush result).2 (code (echo.flush result).2))]

/-- Everything a caller of `handle_recv` can see, in terms of the abstract record. -/
theorem recv_handler_spec (code : RecvExit → Int) (client : Client) (ready : RecvResult) :
    (recvHandler code client ready).1.view =
        (client.view.receive (recv recvBufSize ready)).1 ∧
      (recvHandler code client ready).1.clientFd = client.clientFd ∧
      (recvHandler code client ready).2.1 =
        code (client.view.receive (recv recvBufSize ready)).2 ∧
      (recvHandler code client ready).2.2 =
        recvEvents code client.view (recv recvBufSize ready) := by
  obtain ⟨viewEq, exitEq, fdEq⟩ := Client.receive_view client ready
  refine ⟨viewEq, fdEq, ?_, ?_⟩
  · simp only [recvHandler, exitEq]
  · simp only [recvHandler, recvEvents, exitEq]

theorem send_handler_spec (code : SendExit → Int) (client : Client) (room : SendResult) :
    (sendHandler code client room).1.view =
        (client.view.flush (send client.queued.length room)).1 ∧
      (sendHandler code client room).1.clientFd = client.clientFd ∧
      (sendHandler code client room).2.1 =
        code (client.view.flush (send client.queued.length room)).2 ∧
      (sendHandler code client room).2.2 =
        sendEvents code client.view (send client.queued.length room) := by
  obtain ⟨viewEq, exitEq, fdEq⟩ := Client.flush_view client room
  refine ⟨viewEq, fdEq, ?_, ?_⟩
  · simp only [sendHandler, exitEq]
  · have same : (client.view.queued = []) = (client.sendLen = client.sendOffset) :=
      propext Client.queued_eq_nil
    simp only [sendHandler, sendEvents, exitEq, same, Client.queued_length]
    rfl

theorem recv_events_no_close (code : RecvExit → Int) (echo : LineEcho) (result : RecvResult) :
    ConnEvent.close ∉ recvEvents code echo result := by
  simp [recvEvents]

theorem send_events_no_close (code : SendExit → Int) (echo : LineEcho) (result : SendResult) :
    ConnEvent.close ∉ sendEvents code echo result := by
  unfold sendEvents
  split_ifs <;> simp

def chunkOf : RecvResult → List Byte
  | .ok chunk => chunk
  | .error _ => []

@[simp] theorem received_recv_events (code : RecvExit → Int) (echo : LineEcho)
    (result : RecvResult) : received (recvEvents code echo result) = chunkOf result := by
  cases result <;> simp [recvEvents, ConnEvent.receivedBytes, chunkOf]

@[simp] theorem sent_recv_events (code : RecvExit → Int) (echo : LineEcho)
    (result : RecvResult) : sent (recvEvents code echo result) = [] := by
  simp [recvEvents, ConnEvent.sentBytes]

@[simp] theorem received_send_events (code : SendExit → Int) (echo : LineEcho)
    (result : SendResult) : received (sendEvents code echo result) = [] := by
  unfold sendEvents
  split_ifs <;> simp [ConnEvent.receivedBytes]

/-- What `send` accepts leaves the front of the queue, whatever the outcome. -/
theorem sent_send_events (code : SendExit → Int) (echo : LineEcho) (result : SendResult) :
    sent (sendEvents code echo result) ++ (echo.flush result).1.queued = echo.queued ∧
      (echo.flush result).1.part = echo.part := by
  by_cases empty : echo.queued = []
  · simp [sendEvents, LineEcho.flush, empty, ConnEvent.sentBytes]
  · cases result with
    | error reason =>
        cases reason <;> simp [sendEvents, LineEcho.flush, empty, ConnEvent.sentBytes]
    | ok count =>
        cases count with
        | zero => simp [sendEvents, LineEcho.flush, empty, ConnEvent.sentBytes]
        | succ count =>
            simp [sendEvents, LineEcho.flush, empty, ConnEvent.sentBytes,
              LineEcho.send_out_queued, LineEcho.send_out_part]

/-- `handle_send` reports `flushed` exactly when it empties the queue. -/
theorem flush_cases (echo : LineEcho) (result : SendResult) :
    ((echo.flush result).2 = .flushed ∧ echo.queued ≠ [] ∧
        (echo.flush result).1.queued = []) ∨
      ((echo.flush result).2 ≠ .flushed ∧
        ((echo.flush result).1.queued = [] ↔ echo.queued = [])) := by
  by_cases empty : echo.queued = []
  · right
    simp [LineEcho.flush, empty]
  · cases result with
    | error reason =>
        right
        cases reason <;> simp [LineEcho.flush, empty]
    | ok count =>
        cases count with
        | zero =>
            right
            simp [LineEcho.flush, empty]
        | succ count =>
            by_cases last : echo.queued.drop (count + 1) = []
            · left
              simp [LineEcho.flush, empty, last, LineEcho.send_out_queued]
            · right
              simp [LineEcho.flush, empty, last, LineEcho.send_out_queued]

/-- Either the chunk is taken in, or the record stays as it is. -/
theorem receive_cases (echo : LineEcho) (result : RecvResult) :
    (chunkOf result ≠ [] ∧ echo.part.length + (chunkOf result).length ≤ messageSize ∧
        (echo.receive result).1 = echo.takeIn (chunkOf result) ∧
        (echo.receive result).2 = echo.takeInExit (chunkOf result)) ∨
      (chunkOf result ≠ [] ∧ messageSize < echo.part.length + (chunkOf result).length ∧
        (echo.receive result).1 = echo ∧ (echo.receive result).2 = .messageTooLong) ∨
      (chunkOf result = [] ∧ (echo.receive result).1 = echo ∧
        (echo.receive result).2 =
          (match result with
            | .ok _ => .disconnected
            | .error .eagain => .again
            | .error _ => .recvError)) := by
  match result with
  | .ok chunk =>
      by_cases eof : chunk = []
      · exact Or.inr (Or.inr (by simp [chunkOf, LineEcho.receive, eof]))
      · by_cases fits : echo.part.length + chunk.length ≤ messageSize
        · exact Or.inl (by simp [chunkOf, LineEcho.receive, eof, fits])
        · have tooLong : messageSize < echo.part.length + chunk.length := by omega
          exact Or.inr (Or.inl (by simp [chunkOf, LineEcho.receive, eof, fits, tooLong]))
  | .error reason =>
      refine Or.inr (Or.inr ?_)
      cases reason <;> simp [chunkOf, LineEcho.receive]

/-- Sent, queued and unfinished bytes are the bytes received, in this order. -/
def Accounted (log : List Event) (echo : LineEcho) : Prop :=
  sent log ++ echo.queued ++ echo.part = received log

/-- The same with bytes missing at the end: a chunk was received and dropped. -/
def Within (log : List Event) (echo : LineEcho) : Prop :=
  sent log ++ echo.queued ++ echo.part <+: received log

theorem Accounted.within {log : List Event} {echo : LineEcho} (accounted : Accounted log echo) :
    Within log echo := by
  exact ⟨[], by rw [List.append_nil]; exact accounted⟩

theorem accounted_empty : Accounted [] LineEcho.empty := rfl

/-- `handle_recv` keeps the account unless it drops the chunk. -/
theorem accounted_receive {log : List Event} {echo : LineEcho} (accounted : Accounted log echo)
    (code : RecvExit → Int) (result : RecvResult)
    (kept : (echo.receive result).2 ≠ .messageTooLong) :
    Accounted (log ++ recvEvents code echo result) (echo.receive result).1 := by
  unfold Accounted at accounted ⊢
  simp only [sent_append, received_append, sent_recv_events, received_recv_events,
    List.append_nil]
  rcases receive_cases echo result with ⟨_, _, after, _⟩ | ⟨_, _, _, exit⟩ | ⟨none, after, _⟩
  · rw [after, List.append_assoc, LineEcho.take_in_balance, ← accounted]
    simp only [List.append_assoc]
  · exact absurd exit kept
  · rw [after, none, List.append_nil, accounted]

theorem accounted_flush {log : List Event} {echo : LineEcho} (accounted : Accounted log echo)
    (code : SendExit → Int) (result : SendResult) :
    Accounted (log ++ sendEvents code echo result) (echo.flush result).1 := by
  obtain ⟨queue, part⟩ := sent_send_events code echo result
  unfold Accounted at accounted ⊢
  simp only [sent_append, received_append, received_send_events, List.append_nil, part]
  rw [List.append_assoc (sent log), queue, accounted]

/-- A dropped chunk only lengthens what was received. -/
theorem within_receive_unchanged {log : List Event} {echo : LineEcho}
    (within : Within log echo) (code : RecvExit → Int) (result : RecvResult)
    (unchanged : (echo.receive result).1 = echo) :
    Within (log ++ recvEvents code echo result) (echo.receive result).1 := by
  unfold Within at within ⊢
  simp only [sent_append, received_append, sent_recv_events, received_recv_events,
    List.append_nil, unchanged]
  exact within.trans (List.prefix_append _ _)

theorem within_flush {log : List Event} {echo : LineEcho} (within : Within log echo)
    (code : SendExit → Int) (result : SendResult) :
    Within (log ++ sendEvents code echo result) (echo.flush result).1 := by
  obtain ⟨queue, part⟩ := sent_send_events code echo result
  unfold Within at within ⊢
  simp only [sent_append, received_append, received_send_events, List.append_nil, part]
  rw [List.append_assoc (sent log), queue]
  exact within

/-- `handle_recv` queues whole lines only. -/
theorem receive_lines {log : List Event} {echo : LineEcho} (result : RecvResult)
    (lines : Framed newline (sent log ++ echo.queued)) :
    Framed newline (sent log ++ (echo.receive result).1.queued) := by
  rcases receive_cases echo result with ⟨_, _, after, _⟩ | ⟨_, _, after, _⟩ | ⟨_, after, _⟩
  · rw [after]
    obtain ⟨moved, framed, queue⟩ := LineEcho.take_in_framed echo (chunkOf result)
    rw [queue, ← List.append_assoc]
    exact framed_append lines framed
  · rwa [after]
  · rwa [after]

theorem echoes_prefix_receive {log : List Event} (before : EchoesPrefix log)
    (code : RecvExit → Int) (echo : LineEcho) (result : RecvResult) :
    EchoesPrefix (log ++ recvEvents code echo result) := by
  have afterCall : EchoesPrefix (log ++ [.recv result]) := echoes_prefix_of_silent before _ rfl
  have afterReturn := echoes_prefix_of_silent afterCall
    (.note (.ofRecv (echo.receive result).2 (code (echo.receive result).2))) rfl
  simpa [recvEvents] using afterReturn

/-- The bytes offered to `send` are the next bytes of the connection's own input. -/
theorem echoes_prefix_flush {log : List Event} {echo : LineEcho} (before : EchoesPrefix log)
    (within : Within log echo) (code : SendExit → Int) (result : SendResult) :
    EchoesPrefix (log ++ sendEvents code echo result) := by
  by_cases empty : echo.queued = []
  · have silent := echoes_prefix_of_silent before
      (.note (.ofSend (echo.flush result).2 (code (echo.flush result).2))) rfl
    simpa [sendEvents, empty] using silent
  · have accepted : (ConnEvent.send echo.queued result : Event).sentBytes <+: echo.queued := by
      cases result with
      | ok count => exact List.take_prefix _ _
      | error reason => exact List.nil_prefix
    have call : EchoesPrefix (log ++ [.send echo.queued result]) := by
      apply echoes_prefix_concat before
      have short : sent log ++ (ConnEvent.send echo.queued result : Event).sentBytes <+:
          received log :=
        ((List.prefix_append_right_inj _).mpr accepted).trans
          ((List.prefix_append _ _).trans within)
      simpa [ConnEvent.receivedBytes] using short
    have afterReturn := echoes_prefix_of_silent call
      (.note (.ofSend (echo.flush result).2 (code (echo.flush result).2))) rfl
    simpa [sendEvents, empty] using afterReturn

theorem echoes_prefix_close {log : List Event} (before : EchoesPrefix log) :
    EchoesPrefix (log ++ [.close]) := echoes_prefix_of_silent before _ rfl

/-- Both handlers keep "`send_buf` is reset as soon as it is empty". -/
theorem receive_reset {echo : LineEcho} (reset : echo.Reset) (result : RecvResult) :
    (echo.receive result).1.Reset := by
  rcases receive_cases echo result with ⟨_, _, after, _⟩ | ⟨_, _, after, _⟩ | ⟨_, after, _⟩
  · rw [after]
    exact LineEcho.take_in_reset reset _
  · rwa [after]
  · rwa [after]

theorem flush_reset {echo : LineEcho} (reset : echo.Reset) (result : SendResult) :
    (echo.flush result).1.Reset := by
  by_cases empty : echo.queued = []
  · simpa [LineEcho.flush, empty] using reset
  · cases result with
    | error reason => cases reason <;> simpa [LineEcho.flush, empty] using reset
    | ok count =>
        cases count with
        | zero => simpa [LineEcho.flush, empty] using reset
        | succ count => simpa [LineEcho.flush, empty] using LineEcho.send_out_reset echo (count + 1)

end LinuxSystemPrograms.ConnectionAccount
