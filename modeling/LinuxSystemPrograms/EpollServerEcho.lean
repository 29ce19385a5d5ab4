import LinuxSystemPrograms.EpollServerTable

/-!
# What the epoll server echoes

Two laws about the bytes of one connection. The first server version and the second obey
the prefix law under the same condition, so it is stated for any variant; the law of the
graceful close rests on the return values of the second.
-/

namespace LinuxSystemPrograms.EpollServerEcho

open LinuxSystemPrograms.ConnectionAccount
open LinuxSystemPrograms.EchoClient
open LinuxSystemPrograms.EpollServer
open LinuxSystemPrograms.EpollServerTable
open LinuxSystemPrograms.Framing
open LinuxSystemPrograms.Sockets
open LinuxSystemPrograms.Transition

set_option autoImplicit false

/-! ## The echo is a prefix of the input -/

def isDrop : Event → Bool
  | .note (.ofRecv .messageTooLong _) => true
  | _ => false

/-- A chunk of this connection was received and thrown away as too long. -/
def Dropped (log : List Event) : Prop := ∃ event ∈ log, isDrop event = true

/-- The chunk is copied behind what `recv_message` already holds. -/
def TakesIn (client : EpollServer.Client) (result : RecvResult) : Prop :=
  chunkOf result ≠ [] ∧ client.used + (chunkOf result).length ≤ messageSize

/-- Once a chunk was thrown away on a connection, no later one of it is taken in. -/
def nothingAfterDrop : Condition := fun log client revents answers =>
  revents.epollin = true → Dropped log → ¬ TakesIn client (recv recvBufSize answers.recv)

instance (log : List Event) (client : EpollServer.Client) (revents : Events)
    (answers : Answers) : Decidable (nothingAfterDrop log client revents answers) := by
  unfold nothingAfterDrop Dropped TakesIn
  infer_instance

structure EchoOpen (log : List Event) (client : EpollServer.Client) : Prop where
  prefixes : EchoesPrefix log
  within : Within log client.view
  accounted : ¬ Dropped log → Accounted log client.view

theorem not_dropped_of_append {log later : List Event} (whole : ¬ Dropped (log ++ later)) :
    ¬ Dropped log := by
  rintro ⟨event, member, drop⟩
  exact whole ⟨event, List.mem_append_left _ member, drop⟩

theorem accounted_note {log : List Event} {echo : LineEcho} (accounted : Accounted log echo)
    (note : Return) : Accounted (log ++ [.note note]) echo := by
  simpa [Accounted, ConnEvent.sentBytes, ConnEvent.receivedBytes] using accounted

theorem within_note {log : List Event} {echo : LineEcho} (within : Within log echo)
    (note : Return) : Within (log ++ [.note note]) echo := by
  simpa [Within, ConnEvent.sentBytes, ConnEvent.receivedBytes] using within

theorem echo_open_receive {variant : Variant} {log : List Event}
    {client after : EpollServer.Client} (before : EchoOpen log client) {result : RecvResult}
    (allowed : Dropped log → ¬ TakesIn client result)
    (viewEq : after.view = (client.view.receive result).1) :
    EchoOpen (log ++ recvEvents variant.recvCode client.view result) after where
  prefixes := echoes_prefix_receive before.prefixes _ _ _
  within := by
    rw [viewEq]
    rcases receive_cases client.view result with
      ⟨some, fits, _, exit⟩ | ⟨_, _, same, _⟩ | ⟨_, same, _⟩
    · have takesIn : TakesIn client result := ⟨some, by simpa [Client.view] using fits⟩
      have notDropped : ¬ Dropped log := fun dropped => allowed dropped takesIn
      have kept : (client.view.receive result).2 ≠ .messageTooLong := by
        rw [exit]
        unfold LineEcho.takeInExit
        split_ifs <;> decide
      exact (accounted_receive (before.accounted notDropped) _ result kept).within
    · exact within_receive_unchanged before.within _ _ same
    · exact within_receive_unchanged before.within _ _ same
  accounted := by
    intro notDropped
    rw [viewEq]
    apply accounted_receive (before.accounted (not_dropped_of_append notDropped))
    intro tooLong
    exact notDropped ⟨.note (.ofRecv .messageTooLong (variant.recvCode .messageTooLong)),
      by simp [recvEvents, tooLong], rfl⟩

theorem echo_open_note {log : List Event} {client : EpollServer.Client}
    (before : EchoOpen log client) (note : Return) : EchoOpen (log ++ [.note note]) client where
  prefixes := echoes_prefix_of_silent before.prefixes _ rfl
  within := within_note before.within note
  accounted notDropped := accounted_note (before.accounted (not_dropped_of_append notDropped)) note

theorem echo_open_flush {log : List Event} {client after : EpollServer.Client}
    (before : EchoOpen log client) (result : SendResult)
    (viewEq : after.view = (client.view.flush result).1) :
    EchoOpen (log ++ sendEvents sendCode client.view result) after where
  prefixes := echoes_prefix_flush before.prefixes before.within _ _
  within := by
    rw [viewEq]
    exact within_flush before.within _ _
  accounted notDropped := by
    rw [viewEq]
    exact accounted_flush (before.accounted (not_dropped_of_append notDropped)) _ _

theorem echo_open_write {ptr : Ptr} {revents : Events} {answers : Answers} {log : List Event}
    {client : EpollServer.Client} {entry : Option EpollEvent} (before : EchoOpen log client) :
    EchoOpen (log ++ (writeStage ptr revents answers client entry).events)
      (writeStage ptr revents answers client entry).client := by
  cases writable : revents.epollout with
  | true =>
      have spec := write_stage_spec ptr answers client entry writable
      rw [spec.events]
      exact echo_open_flush before _ spec.view
  | false =>
      rw [write_stage_idle ptr answers client entry writable, List.append_nil]
      exact before

def echoLaw (variant : Variant) : Law variant nothingAfterDrop where
  Open log client _ := EchoOpen log client
  Shut log := EchoesPrefix log
  fresh fd _ :=
    { prefixes := echoes_prefix_nil
      within := List.nil_prefix
      accounted := fun _ => accounted_empty }
  refused := echoes_prefix_close echoes_prefix_nil
  read {log client entry after revents answers} before allowed _ := by
    cases readable : revents.epollin with
    | true =>
        have spec := read_stage_spec variant entry.ptr answers client (some entry) readable
        rw [spec.events, ← List.append_assoc]
        exact echo_open_note (echo_open_receive before (allowed readable) spec.view) _
    | false =>
        rw [read_stage_idle variant entry.ptr answers client (some entry) readable,
          List.append_nil]
        exact before
  keep _ _ before _ _ _ := echo_open_write before
  drop _ _ before _ := echoes_prefix_close (echo_open_write before).prefixes

/-- As long as nothing is taken in behind a dropped chunk, every connection is at every
moment sent a prefix of its own input. -/
theorem echoes_prefix_without_gap {world : World}
    (reached : Reachable (guarded (system epollV2) (Allows nothingAfterDrop)) world) (id : Nat) :
    EchoesPrefix (world.kernel.log id) :=
  (reachable_serving (echoLaw epollV2) reached).table.every_log echoes_prefix_nil
    (fun _ _ _ isOpen => isOpen.prefixes) (fun _ shut => shut) id

/-- Behind a line that is queued come 4096 bytes without a newline and one more that does not
fit. One byte of the line is sent then, and the next byte does not fit either. -/
def thrownAway : List Label :=
  connect ++ arrive false (.ok [97, newline]) ++ arrive false (.ok (List.replicate 1024 98)) ++
    arrive false (.ok (List.replicate 1024 98)) ++ arrive false (.ok (List.replicate 1024 98)) ++
    arrive false (.ok (List.replicate 1024 98)) ++ arrive false (.ok [98]) ++ depart (.ok 1) ++
    arrive false (.ok [98])

theorem echoes_prefix_without_gap_thrown_away :
    ∃ world, Reachable (guarded (system epollV2) (Allows nothingAfterDrop)) world ∧
      Dropped (world.kernel.log 0) ∧ sent (world.kernel.log 0) = [97] ∧
      ConnEvent.close ∉ world.kernel.log 0 ∧ EchoesPrefix (world.kernel.log 0) := by
  obtain ⟨world, reached, drop, passed, isOpen⟩ := exists_reachable_of_run
    (guarded_next_sound (Allows nothingAfterDrop) (next_sound epollV2))
    ⟨3, true, by decide, rfl⟩ thrownAway
    (fun world => (∃ event ∈ world.kernel.log 0, isDrop event = true) ∧
      sent (world.kernel.log 0) = [97] ∧ ConnEvent.close ∉ world.kernel.log 0)
    (by decide +kernel)
  exact ⟨world, reached, drop, passed, isOpen, echoes_prefix_without_gap reached 0⟩

/-- 4095 bytes without a newline, two more that do not fit, then a newline. -/
def gap : List Label :=
  connect ++ arrive false (.ok (List.replicate 1024 97)) ++
    arrive false (.ok (List.replicate 1024 97)) ++ arrive false (.ok (List.replicate 1024 97)) ++
    arrive false (.ok (List.replicate 1023 97)) ++ arrive false (.ok [97, 98]) ++
    arrive false (.ok [newline]) ++ depart (.ok 4096)

theorem not_every_echo_is_prefix :
    ¬ ∀ world, Reachable (system epollV2) world → ∀ id, EchoesPrefix (world.kernel.log id) := by
  intro always
  obtain ⟨world, reached, passed⟩ := exists_reachable_of_run (next_sound epollV2)
    ⟨3, true, by decide, rfl⟩ gap
    (fun world => ¬ sent (world.kernel.log 0) <+: received (world.kernel.log 0))
    (by decide +kernel)
  exact passed (always world reached 0 _ List.prefix_rfl)

/-! ## A graceful close loses no line -/

/-- The peer has written `stream` and shut down: what arrives is a part of it, and `recv`
returns 0 only at its end. -/
structure PeerStream (stream : List Byte) (log : List Event) : Prop where
  arrives : received log <+: stream
  ends : ∀ index < log.length, log[index]? = some (.recv (.ok [])) →
    received (log.take index) = stream

def isFailure : Event → Bool
  | .note (.ofRecv _ ret) => ret = -1
  | .note (.ofSend _ ret) => ret = -1
  | _ => false

/-- No handler call on the connection returned `-1`. -/
def NoFailure (log : List Event) : Prop := ∀ event ∈ log, isFailure event = false

structure Graceful (stream : List Byte) (log : List Event) : Prop where
  peer : PeerStream stream log
  clean : NoFailure log

instance (stream : List Byte) (log : List Event) : Decidable (PeerStream stream log) :=
  decidable_of_iff (received log <+: stream ∧ ∀ index < log.length,
      log[index]? = some (.recv (.ok [])) → received (log.take index) = stream)
    ⟨fun parts => ⟨parts.1, parts.2⟩, fun peer => ⟨peer.arrives, peer.ends⟩⟩

theorem PeerStream.of_append {stream : List Byte} {log later : List Event}
    (whole : PeerStream stream (log ++ later)) : PeerStream stream log where
  arrives := by
    have arrives := whole.arrives
    rw [received_append] at arrives
    exact (List.prefix_append _ _).trans arrives
  ends := by
    intro index bound found
    have ends := whole.ends index (by simp only [List.length_append]; omega)
    rw [List.getElem?_append_left bound, List.take_append_of_le_length (by omega)] at ends
    exact ends found

theorem Graceful.of_append {stream : List Byte} {log later : List Event}
    (whole : Graceful stream (log ++ later)) : Graceful stream log where
  peer := whole.peer.of_append
  clean event member := whole.clean event (List.mem_append_left _ member)

structure GracefulOpen (stream : List Byte) (log : List Event) (client : EpollServer.Client) :
    Prop where
  accounted : Accounted log client.view
  unfinished : newline ∉ client.part
  lines : Framed newline (sent log ++ client.queued)
  marked : client.shouldClose = true → received log = stream

/-- `handle_recv` queues every complete line, unless `send_buf` has no room for it. -/
theorem receive_leaves_no_line {echo : LineEcho} {result : RecvResult}
    (unfinished : newline ∉ echo.part) (fits : (echo.receive result).2 ≠ .sendBufFull) :
    newline ∉ (echo.receive result).1.part := by
  rcases receive_cases echo result with ⟨_, _, after, exit⟩ | ⟨_, _, after, _⟩ | ⟨_, after, _⟩
  · rw [after]
    intro member
    rw [exit, LineEcho.takeInExit, if_pos member] at fits
    exact fits rfl
  · rw [after]
    exact unfinished
  · rw [after]
    exact unfinished

/-- Of the values of `handle_recv` other than `0` and `-1` there is only the one for the
end of input. -/
theorem receive_marks {echo : LineEcho} {result : RecvResult}
    (notFailed : recvCodeV2 (echo.receive result).2 ≠ -1)
    (nonzero : recvCodeV2 (echo.receive result).2 ≠ 0) : result = .ok [] := by
  rcases receive_cases echo result with
    ⟨_, _, _, exit⟩ | ⟨_, _, _, exit⟩ | ⟨none, _, exit⟩
  · rw [exit, LineEcho.takeInExit] at notFailed nonzero
    split_ifs at notFailed nonzero
    · exact absurd rfl notFailed
    · exact absurd rfl nonzero
  · rw [exit] at notFailed
    exact absurd rfl notFailed
  · rw [exit] at notFailed nonzero
    cases result with
    | ok chunk => exact congrArg Except.ok none
    | error reason =>
        cases reason with
        | eagain => exact absurd rfl nonzero
        | _ => exact absurd rfl notFailed

theorem graceful_open_receive {stream : List Byte} {log : List Event}
    {client after : EpollServer.Client} {result : RecvResult} {rdhup : Bool}
    (before : GracefulOpen stream log client)
    (graceful : Graceful stream (log ++ recvEvents recvCodeV2 client.view result))
    (viewEq : after.view = (client.view.receive result).1)
    (markedEq : after.shouldClose = (client.shouldClose ||
      decide (recvCodeV2 (client.view.receive result).2 = -1) ||
        (rdhup && decide (recvCodeV2 (client.view.receive result).2 ≠ 0)))) :
    GracefulOpen stream (log ++ recvEvents recvCodeV2 client.view result) after := by
  have success : recvCodeV2 (client.view.receive result).2 ≠ -1 := by
    intro failed
    have clean := graceful.clean
      (.note (.ofRecv (client.view.receive result).2 (-1)))
      (List.mem_append_right _ (by simp [recvEvents, failed]))
    exact Bool.noConfusion clean
  constructor
  · rw [viewEq]
    apply accounted_receive before.accounted
    intro tooLong
    rw [tooLong] at success
    exact success rfl
  · have fits : (client.view.receive result).2 ≠ .sendBufFull := by
      intro full
      rw [full] at success
      exact success rfl
    have noLine := receive_leaves_no_line before.unfinished fits
    rw [← viewEq] at noLine
    exact noLine
  · have queue : Framed newline (sent log ++ client.view.queued) := before.lines
    have lines := receive_lines result queue
    rw [← viewEq] at lines
    rw [sent_append, sent_recv_events, List.append_nil]
    exact lines
  · intro marked
    rw [received_append, received_recv_events]
    rw [markedEq, decide_eq_false success, Bool.or_false, Bool.or_eq_true] at marked
    rcases marked with old | new
    · -- a marked client has read everything, so nothing more can arrive
      have whole := before.marked old
      have arrives := graceful.peer.arrives
      rw [received_append, received_recv_events, whole] at arrives
      rw [whole]
      exact arrives.eq_of_length_le (by simp)
    · rw [Bool.and_eq_true, decide_eq_true_eq] at new
      have eof := receive_marks success new.2
      subst eof
      have whole := graceful.peer.ends log.length (by simp [recvEvents]) (by simp [recvEvents])
      rw [List.take_left] at whole
      rw [whole]
      exact List.append_nil _

theorem graceful_open_note {stream : List Byte} {log : List Event}
    {client : EpollServer.Client} (before : GracefulOpen stream log client) (note : Return) :
    GracefulOpen stream (log ++ [.note note]) client where
  accounted := accounted_note before.accounted note
  unfinished := before.unfinished
  lines := by simpa [ConnEvent.sentBytes] using before.lines
  marked := by simpa [ConnEvent.receivedBytes] using before.marked

/-- `handle_send` leaves the unfinished line alone, and what it sends was queued. -/
theorem flush_keeps_bytes {client after : EpollServer.Client} (result : SendResult)
    (viewEq : after.view = (client.view.flush result).1) :
    after.part = client.part ∧
      sent (sendEvents sendCode client.view result) ++ after.queued = client.queued := by
  obtain ⟨queue, part⟩ := sent_send_events sendCode client.view result
  rw [viewEq.symm] at queue
  exact ⟨(congrArg LineEcho.part viewEq).trans part, queue⟩

/-- A `handle_send` that failed has left a note. -/
theorem write_failure_noted {ptr : Ptr} {revents : Events} {answers : Answers}
    {client : EpollServer.Client} {entry : Option EpollEvent} (writable : revents.epollout = true)
    (failed : (writeStage ptr revents answers client entry).ret = -1) :
    .note (.ofSend (client.view.flush (send client.queued.length answers.send)).2 (-1)) ∈
      (writeStage ptr revents answers client entry).events := by
  have spec := write_stage_spec ptr answers client entry writable
  rw [spec.ret] at failed
  rw [spec.events, sendEvents, failed]
  exact List.mem_append_right _ List.mem_cons_self

theorem graceful_open_flush {stream : List Byte} {log : List Event}
    {client after : EpollServer.Client} (before : GracefulOpen stream log client)
    (result : SendResult) (viewEq : after.view = (client.view.flush result).1)
    (markedEq : after.shouldClose = client.shouldClose) :
    GracefulOpen stream (log ++ sendEvents sendCode client.view result) after := by
  obtain ⟨part, queue⟩ := flush_keeps_bytes result viewEq
  constructor
  · rw [viewEq]
    exact accounted_flush before.accounted _ _
  · rw [part]
    exact before.unfinished
  · rw [sent_append, List.append_assoc, queue]
    exact before.lines
  · rw [markedEq, received_append, received_send_events, List.append_nil]
    exact before.marked

theorem graceful_open_write {stream : List Byte} {ptr : Ptr} {revents : Events}
    {answers : Answers} {log : List Event} {client : EpollServer.Client}
    {entry : Option EpollEvent} (before : GracefulOpen stream log client) :
    GracefulOpen stream (log ++ (writeStage ptr revents answers client entry).events)
      (writeStage ptr revents answers client entry).client := by
  cases writable : revents.epollout with
  | true =>
      have spec := write_stage_spec ptr answers client entry writable
      rw [spec.events]
      exact graceful_open_flush before _ spec.view spec.marked
  | false =>
      rw [write_stage_idle ptr answers client entry writable, List.append_nil]
      exact before

/-- What a connection that the loop closes was sent, if its handlers never failed. -/
def Answered (stream : List Byte) (log : List Event) : Prop :=
  Graceful stream log → log ≠ [.close] →
    received log = stream ∧ sent log = complete newline stream

theorem answered_of_closing {stream : List Byte} {ptr : Ptr} {revents : Events}
    {answers : Answers} {log : List Event} {client : EpollServer.Client}
    {entry : Option EpollEvent} (before : Graceful stream log → GracefulOpen stream log client)
    (closing : Closing (writeStage ptr revents answers client entry)) :
    Answered stream
      (log ++ (writeStage ptr revents answers client entry).events ++ [.close]) := by
  intro graceful _
  cases writable : revents.epollout with
  | false => exact absurd closing (not_closing_idle writable)
  | true =>
      have spec := write_stage_spec ptr answers client entry writable
      have isOpen := graceful_open_flush (before graceful.of_append.of_append)
        (send client.queued.length answers.send) spec.view spec.marked
      have success : (writeStage ptr revents answers client entry).ret ≠ -1 := by
        intro failed
        have noted := List.mem_append_right log (write_failure_noted writable failed)
        exact Bool.noConfusion (graceful.of_append.clean _ noted)
      rw [spec.events] at graceful ⊢
      obtain ⟨finished, marked⟩ := closing.resolve_left success
      rw [spec.ret, send_code_eq_one] at finished
      have flushed : (writeStage ptr revents answers client entry).client.queued = [] := by
        have emptied := (flush_cases client.view (send client.queued.length answers.send)).resolve_right
          fun stays => stays.1 finished
        rw [← spec.view] at emptied
        exact emptied.2.2
      have whole := isOpen.marked marked
      have lines := isOpen.lines
      have accounted : _ ++ _ ++ _ = _ := isOpen.accounted
      rw [flushed, List.append_nil] at lines
      have noQueue : (writeStage ptr revents answers client entry).client.view.queued = [] := flushed
      rw [noQueue, List.append_nil, whole] at accounted
      simp only [received_append, sent_append, received_cons, sent_cons, received_nil, sent_nil,
        ConnEvent.receivedBytes, ConnEvent.sentBytes, List.append_nil] at whole accounted lines ⊢
      refine ⟨whole, ?_⟩
      rw [← accounted]
      exact (complete_append_unfinished lines isOpen.unfinished).symm

def gracefulLaw (stream : List Byte) : Law epollV2 anyEvent where
  Open log client _ := Graceful stream log → GracefulOpen stream log client
  Shut := Answered stream
  fresh fd _ := fun _ =>
    { accounted := accounted_empty
      unfinished := List.not_mem_nil
      lines := framed_nil newline
      marked := fun marked => Bool.noConfusion marked }
  refused := fun _ served => absurd rfl served
  read {log client entry after revents answers} before _ _ := by
    cases readable : revents.epollin with
    | true =>
        have spec := read_stage_spec epollV2 entry.ptr answers client (some entry) readable
        rw [spec.events, ← List.append_assoc]
        intro graceful
        exact graceful_open_note (graceful_open_receive (before graceful.of_append.of_append)
          graceful.of_append spec.view spec.marked) _
    | false =>
        rw [read_stage_idle epollV2 entry.ptr answers client (some entry) readable,
          List.append_nil]
        exact before
  keep _ _ before _ _ _ graceful := graceful_open_write (before graceful.of_append)
  drop _ _ before closing := answered_of_closing before closing

/-- A connection that was served (not refused right after `accept`), without a failing
handler call, is closed only when all of the peer's stream has been received and its
complete lines have been sent. -/
theorem graceful_close_loses_no_line {world : World} (reached : Reachable (system epollV2) world)
    {id : Nat} {stream : List Byte} (peer : PeerStream stream (world.kernel.log id))
    (clean : NoFailure (world.kernel.log id)) (served : world.kernel.log id ≠ [.close])
    (closed : ConnEvent.close ∈ world.kernel.log id) :
    received (world.kernel.log id) = stream ∧
      sent (world.kernel.log id) = complete newline stream :=
  (reachable_serving_any (gracefulLaw stream) reached).table.shut id closed ⟨peer, clean⟩ served

/-- `EPOLLRDHUP` comes with the first chunk; the hang-up is seen while output is pending. -/
def hangUp : List Label :=
  connect ++ arrive true (.ok [97, newline, 98]) ++ arrive true (.ok []) ++ depart (.ok 1) ++
    depart (.ok 4096)

theorem graceful_close_loses_no_line_hang_up :
    ∃ world, Reachable (system epollV2) world ∧ ConnEvent.close ∈ world.kernel.log 0 ∧
      received (world.kernel.log 0) = [97, newline, 98] ∧
      sent (world.kernel.log 0) = complete newline [97, newline, 98] := by
  obtain ⟨world, reached, closed, served, clean, peer⟩ :=
    exists_reachable_of_run (next_sound epollV2) ⟨3, true, by decide, rfl⟩ hangUp
      (fun world => ConnEvent.close ∈ world.kernel.log 0 ∧ world.kernel.log 0 ≠ [.close] ∧
        (∀ event ∈ world.kernel.log 0, isFailure event = false) ∧
        PeerStream [97, newline, 98] (world.kernel.log 0))
      (by decide +kernel)
  exact ⟨world, reached, closed, graceful_close_loses_no_line reached peer clean served closed⟩

end LinuxSystemPrograms.EpollServerEcho
