import LinuxSystemPrograms.EpollServerEcho

/-!
# `tcp_epoll_server_v1.c`

The first version of the epoll server marks a client for closing on every event that
carries `EPOLLRDHUP`, also while bytes of the peer are unread, and closes it at the next
flush that empties the queue. The echo of a half-closing peer is whole exactly when no
such flush comes before the end of the input has been read.
-/

namespace LinuxSystemPrograms.EpollServerV1

open LinuxSystemPrograms.ConnectionAccount
open LinuxSystemPrograms.EchoClient
open LinuxSystemPrograms.EpollServer
open LinuxSystemPrograms.EpollServerEcho
open LinuxSystemPrograms.EpollServerTable
open LinuxSystemPrograms.Framing
open LinuxSystemPrograms.Sockets
open LinuxSystemPrograms.Transition

set_option autoImplicit false

def recvCodeV1 : RecvExit → Int
  | .drained => 0
  | .again => 0
  | _ => -1

def epollV1 : Variant where
  maxConnections := 256
  maxEvents := 256
  recvCode := recvCodeV1
  hangupMarks _ := true

/-! ## Histories -/

/-- `holds` of every event of the log and what came before it. -/
def AtEach (holds : List Event → Event → Prop) (log : List Event) : Prop :=
  ∀ earlier event, earlier ++ [event] <+: log → holds earlier event

variable {holds : List Event → Event → Prop}

theorem at_each_nil : AtEach holds [] := by
  intro earlier event isPrefix
  simp at isPrefix

theorem at_each_concat {log : List Event} {event : Event} :
    AtEach holds (log ++ [event]) ↔ AtEach holds log ∧ holds log event := by
  constructor
  · intro all
    constructor
    · intro earlier old isPrefix
      exact all earlier old (isPrefix.trans (List.prefix_append _ _))
    · exact all log event List.prefix_rfl
  · rintro ⟨old, now⟩ earlier other isPrefix
    rcases List.prefix_concat_iff.mp isPrefix with same | shorter
    · obtain ⟨rfl, sameEvent⟩ := List.append_inj' same rfl
      rw [List.singleton_inj.mp sameEvent]
      exact now
    · exact old earlier other shorter

def lastRecv (log : List Event) : Option RecvResult :=
  (log.filterMap fun
    | .recv result => some result
    | _ => none).getLast?

/-- `recv` has failed or returned 0. -/
def ends : RecvResult → Bool
  | .ok chunk => chunk.isEmpty
  | .error reason => reason ≠ .eagain

/-- The loop sets `should_close` for an event with `EPOLLRDHUP`, or whose `recv` has failed or
returned 0. -/
def isMark (earlier : List Event) : Event → Bool
  | .note (.ofEvent rdhup _) => rdhup || (lastRecv earlier).any ends
  | _ => false

def Marked (log : List Event) : Prop :=
  ∃ earlier event, earlier ++ [event] <+: log ∧ isMark earlier event = true

/-- A `send` for a marked client that takes the last byte of the complete lines received
so far. -/
def Final (earlier : List Event) : Event → Prop
  | .send _ (.ok count) =>
      Marked earlier ∧
        (complete newline (received earlier)).length ≤ (sent earlier).length + count
  | _ => False

/-- By the time of such a `send` the peer's stream has been read to its end. -/
def ReadInTime (stream : List Byte) (log : List Event) : Prop :=
  AtEach (fun earlier event => Final earlier event → received earlier = stream) log

theorem not_final_of_silent {log : List Event} {event : Event}
    (silent : ∀ offered count, event ≠ .send offered (.ok count)) : ¬ Final log event := by
  intro final
  unfold Final at final
  split at final
  · exact silent _ _ rfl
  · exact final

theorem marked_concat {log : List Event} {event : Event} :
    Marked (log ++ [event]) ↔ Marked log ∨ isMark log event = true := by
  have unmarked : ∀ log, ¬ Marked log ↔
      AtEach (fun earlier event => ¬ isMark earlier event = true) log := by
    intro log
    simp only [Marked, AtEach, not_exists, not_and]
  rw [← not_iff_not, not_or, unmarked, unmarked, at_each_concat]

/-! ## One connection -/

/-- `handle_recv` has obtained data and returned something other than 0, or `handle_send` has
failed. -/
def isRefusal : Event → Bool
  | .note (.ofRecv exit ret) =>
      decide (exit ∈ [RecvExit.drained, .messageTooLong, .sendBufFull] ∧ ret ≠ 0)
  | .note (.ofSend _ ret) => decide (ret = -1)
  | _ => false

structure Undisturbed (stream : List Byte) (log : List Event) : Prop where
  peer : PeerStream stream log
  clean : ∀ event ∈ log, isRefusal event = false

instance (stream : List Byte) (log : List Event) : Decidable (Undisturbed stream log) :=
  decidable_of_iff (PeerStream stream log ∧ ∀ event ∈ log, isRefusal event = false)
    ⟨fun parts => ⟨parts.1, parts.2⟩, fun whole => ⟨whole.peer, whole.clean⟩⟩

theorem Undisturbed.of_append {stream : List Byte} {log later : List Event}
    (whole : Undisturbed stream (log ++ later)) : Undisturbed stream log where
  peer := whole.peer.of_append
  clean event member := whole.clean event (List.mem_append_left _ member)

/-- An open connection: a final `send` would have closed it. -/
structure Tracked (log : List Event) (client : EpollServer.Client) : Prop where
  accounted : Accounted log client.view
  unfinished : newline ∉ client.part
  lines : Framed newline (sent log ++ client.queued)
  marked : client.shouldClose = true ↔ Marked log
  unfinal : AtEach (fun earlier event => ¬ Final earlier event) log

theorem tracked_fresh (fd : Fd) : Tracked [] (initClient fd) where
  accounted := accounted_empty
  unfinished := List.not_mem_nil
  lines := framed_nil newline
  marked := by simp [initClient, Marked]
  unfinal := at_each_nil

variable {stream : List Byte} {log : List Event} {client after : EpollServer.Client}

/-- What has been sent and what is queued are the complete lines received so far. -/
theorem Tracked.complete_received (tracked : Tracked log client) :
    complete newline (received log) = sent log ++ client.queued := by
  rw [← tracked.accounted]
  exact complete_append_unfinished tracked.lines tracked.unfinished

/-- A `send` is final exactly when it makes `handle_send` return 1 for a marked client. -/
theorem Tracked.final_iff (tracked : Tracked log client) (pending : client.view.queued ≠ [])
    (offered : List Byte) (result : SendResult) :
    Final log (.send offered result) ↔
      Marked log ∧ (client.view.flush result).2 = .flushed := by
  have nonempty : 0 < client.view.queued.length := List.length_pos_iff.mpr pending
  have lines := congrArg List.length tracked.complete_received
  have queuedView : client.view.queued = client.queued := rfl
  rw [List.length_append, ← queuedView] at lines
  cases result with
  | error reason => cases reason <;> simp [Final, LineEcho.flush, pending]
  | ok count =>
      simp only [Final, lines, Nat.add_le_add_iff_left]
      cases count with
      | zero =>
          simp only [LineEcho.flush, pending, if_false]
          exact ⟨fun final => absurd final.2 (by omega), fun final => by cases final.2⟩
      | succ count =>
          simp only [LineEcho.flush, pending, if_false, List.drop_eq_nil_iff]
          apply and_congr_right
          intro _
          by_cases empties : client.view.queued.length ≤ count + 1
          · simp [empties]
          · simp [empties]

/-- With a chunk that is kept, `handle_recv` fails exactly when its `recv` gives no bytes. -/
theorem ends_iff {echo : LineEcho} {result : RecvResult}
    (kept : (echo.receive result).2 ≠ .messageTooLong)
    (fits : (echo.receive result).2 ≠ .sendBufFull) :
    ends result = decide (recvCodeV1 (echo.receive result).2 = -1) := by
  rcases receive_cases echo result with ⟨some, _, _, exit⟩ | ⟨_, _, _, exit⟩ | ⟨none, _, exit⟩
  · have bytes : ends result = false := by
      cases result with
      | ok chunk => simpa [ends, chunkOf] using some
      | error reason => exact absurd rfl some
    rw [exit, LineEcho.takeInExit] at fits ⊢
    split_ifs at fits ⊢
    · exact absurd rfl fits
    · exact bytes
  · exact absurd exit kept
  · rw [exit]
    cases result with
    | ok chunk =>
        obtain rfl : chunk = [] := none
        rfl
    | error reason => cases reason <;> rfl

theorem Tracked.receive (before : Tracked log client) {result : RecvResult} {rdhup : Bool}
    (undisturbed : Undisturbed stream (log ++ recvEvents recvCodeV1 client.view result))
    (viewEq : after.view = (client.view.receive result).1)
    (markedEq : after.shouldClose = (client.shouldClose ||
      decide (recvCodeV1 (client.view.receive result).2 = -1) || (rdhup && true))) :
    Tracked (log ++ recvEvents recvCodeV1 client.view result ++
      [.note (.ofEvent rdhup (client.view.receive result).2)]) after := by
  have allowed : (client.view.receive result).2 ∉ [RecvExit.messageTooLong, .sendBufFull] := by
    intro refused
    have clean := undisturbed.clean (.note (.ofRecv (client.view.receive result).2
      (recvCodeV1 (client.view.receive result).2)))
      (List.mem_append_right _ (by simp [recvEvents]))
    rcases List.mem_pair.mp refused with same | same <;> simp [isRefusal, same, recvCodeV1] at clean
  have kept : (client.view.receive result).2 ≠ .messageTooLong := fun same =>
    allowed (by simp [same])
  have fits : (client.view.receive result).2 ≠ .sendBufFull := fun same =>
    allowed (by simp [same])
  constructor
  · rw [viewEq]
    exact accounted_note (accounted_receive before.accounted _ _ kept) _
  · have noLine := receive_leaves_no_line before.unfinished fits
    rw [← viewEq] at noLine
    exact noLine
  · have queue : Framed newline (sent log ++ client.view.queued) := before.lines
    have lines := receive_lines result queue
    rw [← viewEq] at lines
    simp only [sent_append, sent_recv_events, sent_cons, ConnEvent.sentBytes, sent_nil,
      List.append_nil]
    exact lines
  · have old := before.marked
    rw [marked_concat, recvEvents, List.append_cons log,
      marked_concat, marked_concat, markedEq]
    have last : lastRecv (log ++ [.recv result] ++ [.note (.ofRecv (client.view.receive result).2
        (recvCodeV1 (client.view.receive result).2))]) = some result := by
      simp [lastRecv]
    rw [← ends_iff kept fits]
    simp only [Bool.or_eq_true, old, Bool.and_true, isMark, last, Option.any_some,
      Bool.false_eq_true, or_false]
    tauto
  · have silent : ∀ earlier event, (∀ offered count, event ≠ .send offered (.ok count)) →
        ¬ Final earlier event := fun _ _ none => not_final_of_silent none
    rw [at_each_concat, recvEvents, List.append_cons log,
      at_each_concat, at_each_concat]
    exact ⟨⟨⟨before.unfinal, silent _ _ (by simp)⟩, silent _ _ (by simp)⟩,
      silent _ _ (by simp)⟩

/-- `handle_send` when it does not end the connection. -/
theorem Tracked.flush (before : Tracked log client) (result : SendResult)
    (viewEq : after.view = (client.view.flush result).1)
    (markedEq : after.shouldClose = client.shouldClose)
    (stays : ¬ ((client.view.flush result).2 = .flushed ∧ client.shouldClose = true)) :
    Tracked (log ++ sendEvents sendCode client.view result) after := by
  obtain ⟨part, queue⟩ := flush_keeps_bytes result viewEq
  constructor
  · rw [viewEq]
    exact accounted_flush before.accounted _ _
  · rw [part]
    exact before.unfinished
  · rw [sent_append, List.append_assoc, queue]
    exact before.lines
  · rw [markedEq, before.marked]
    unfold sendEvents
    split_ifs with empty
    · simp [marked_concat, isMark]
    · rw [List.singleton_append, List.append_cons, marked_concat, marked_concat]
      simp [isMark]
  · unfold sendEvents
    split_ifs with empty
    · rw [List.nil_append, at_each_concat]
      exact ⟨before.unfinal, not_final_of_silent (by simp)⟩
    · rw [List.singleton_append, List.append_cons, at_each_concat, at_each_concat]
      refine ⟨⟨before.unfinal, ?_⟩, not_final_of_silent (by simp)⟩
      intro final
      obtain ⟨marked, flushed⟩ := (before.final_iff empty _ _).mp final
      exact stays ⟨flushed, before.marked.mpr marked⟩

/-- A connection that is refused behind `accept` has read nothing. -/
def Timely (stream : List Byte) (log : List Event) : Prop :=
  ReadInTime stream log ∧ (log = [.close] → stream = [])

def Answered (stream : List Byte) (log : List Event) : Prop :=
  Undisturbed stream log →
    (received log = stream ∧ sent log = complete newline stream ↔ Timely stream log)

theorem answered_refused (stream : List Byte) : Answered stream [.close] := by
  intro _
  have silent : ReadInTime stream [.close] := by
    rw [← List.nil_append [_], ReadInTime, at_each_concat]
    exact ⟨at_each_nil, fun isFinal => absurd isFinal (not_final_of_silent (by simp))⟩
  constructor
  · exact fun whole => ⟨silent, fun _ => whole.1.symm⟩
  · rintro ⟨_, nothing⟩
    rw [nothing rfl]
    exact ⟨rfl, rfl⟩

/-- The flush that closes the connection is its only final `send`. -/
theorem Tracked.answered (before : Tracked log client) {result : SendResult}
    (flushed : (client.view.flush result).2 = .flushed) (marked : client.shouldClose = true) :
    received (log ++ sendEvents sendCode client.view result ++ [.close]) = stream ∧
        sent (log ++ sendEvents sendCode client.view result ++ [.close]) =
          complete newline stream ↔
      ReadInTime stream (log ++ sendEvents sendCode client.view result ++ [.close]) := by
  have emptied := (flush_cases client.view result).resolve_right fun stays => stays.1 flushed
  have final : Final log (.send client.view.queued result) :=
    (before.final_iff emptied.2.1 _ _).mpr ⟨before.marked.mp marked, flushed⟩
  have condition : ReadInTime stream
      (log ++ sendEvents sendCode client.view result ++ [.close]) ↔ received log = stream := by
    unfold ReadInTime sendEvents
    rw [if_neg emptied.2.1, List.singleton_append, at_each_concat, List.append_cons,
      at_each_concat, at_each_concat]
    constructor
    · intro all
      exact all.1.1.2 final
    · intro whole
      refine ⟨⟨⟨?_, fun _ => whole⟩, ?_⟩, ?_⟩
      · intro earlier event isPrefix isFinal
        exact absurd isFinal (before.unfinal earlier event isPrefix)
      · exact fun isFinal => absurd isFinal (not_final_of_silent (by simp))
      · exact fun isFinal => absurd isFinal (not_final_of_silent (by simp))
  have sentAll : sent (sendEvents sendCode client.view result) = client.queued := by
    have queue := (sent_send_events sendCode client.view result).1
    rw [emptied.2.2, List.append_nil] at queue
    exact queue
  rw [condition]
  simp only [received_append, sent_append, received_send_events, sentAll, received_cons,
    sent_cons, received_nil, sent_nil, ConnEvent.receivedBytes, ConnEvent.sentBytes,
    List.append_nil]
  constructor
  · exact fun whole => whole.1
  · intro whole
    refine ⟨whole, ?_⟩
    rw [← before.complete_received, whole]

theorem Tracked.write {ptr : Ptr} {revents : Events} {answers : Answers}
    {entry : Option EpollEvent} (before : Tracked log client)
    (stays : ¬ Closing (writeStage ptr revents answers client entry)) :
    Tracked (log ++ (writeStage ptr revents answers client entry).events)
      (writeStage ptr revents answers client entry).client := by
  cases writable : revents.epollout with
  | true =>
      have spec := write_stage_spec ptr answers client entry writable
      rw [spec.events]
      apply before.flush _ spec.view spec.marked
      rintro ⟨flushed, marked⟩
      apply stays
      right
      rw [spec.ret, send_code_eq_one, spec.marked]
      exact ⟨flushed, marked⟩
  | false =>
      rw [write_stage_idle ptr answers client entry writable, List.append_nil]
      exact before

theorem answered_of_closing {ptr : Ptr} {revents : Events} {answers : Answers}
    {entry : Option EpollEvent} (before : Undisturbed stream log → Tracked log client)
    (closing : Closing (writeStage ptr revents answers client entry)) :
    Answered stream
      (log ++ (writeStage ptr revents answers client entry).events ++ [.close]) := by
  intro undisturbed
  cases writable : revents.epollout with
  | false => exact absurd closing (not_closing_idle writable)
  | true =>
      have spec := write_stage_spec ptr answers client entry writable
      have tracked := before undisturbed.of_append.of_append
      have success : (writeStage ptr revents answers client entry).ret ≠ -1 := by
        intro failed
        have noted := List.mem_append_right log (write_failure_noted writable failed)
        exact Bool.noConfusion (undisturbed.of_append.clean _ noted)
      obtain ⟨finished, marked⟩ := closing.resolve_left success
      rw [spec.ret, send_code_eq_one] at finished
      rw [spec.marked] at marked
      rw [spec.events, tracked.answered finished marked, Timely, iff_self_and]
      intro _ same
      have lengths := congrArg List.length same
      simp only [sendEvents, List.length_append, List.length_singleton] at lengths
      omega

def halfCloseLaw (stream : List Byte) : Law epollV1 anyEvent where
  Open log client _ := Undisturbed stream log → Tracked log client
  Shut := Answered stream
  fresh fd _ := fun _ => tracked_fresh fd
  refused := answered_refused stream
  read {log client entry after revents answers} before _ _ := by
    cases readable : revents.epollin with
    | true =>
        have spec := read_stage_spec epollV1 entry.ptr answers client (some entry) readable
        rw [spec.events, ← List.append_assoc]
        intro undisturbed
        exact (before undisturbed.of_append.of_append).receive undisturbed.of_append spec.view
          spec.marked
    | false =>
        rw [read_stage_idle epollV1 entry.ptr answers client (some entry) readable,
          List.append_nil]
        exact before
  keep _ _ before _ stays _ undisturbed := (before undisturbed.of_append).write stays
  drop _ _ before closing := answered_of_closing before closing

/-- The echo of a half-closing peer is whole exactly when no final `send` came before the end
of its stream was read. -/
theorem half_close_echoed_iff_timely {world : World} (reached : Reachable (system epollV1) world)
    {id : Nat} {stream : List Byte} (undisturbed : Undisturbed stream (world.kernel.log id))
    (closed : ConnEvent.close ∈ world.kernel.log id) :
    received (world.kernel.log id) = stream ∧
        sent (world.kernel.log id) = complete newline stream ↔
      Timely stream (world.kernel.log id) :=
  (reachable_serving_any (halfCloseLaw stream) reached).table.shut id closed undisturbed

/-- The peer has written two lines and shut down. The first `recv` returns one of them, and
`EPOLLRDHUP` comes with it. -/
def hungUp (room : SendResult) : List Label :=
  connect ++ arrive true (.ok [97, newline]) ++ depart room

theorem half_close_echoed_iff_timely_two_lines :
    ∃ world, Reachable (system epollV1) world ∧ ConnEvent.close ∈ world.kernel.log 0 ∧
      sent (world.kernel.log 0) = complete newline [97, newline, 98, newline] ∧
      Timely [97, newline, 98, newline] (world.kernel.log 0) := by
  obtain ⟨world, reached, closed, undisturbed, whole⟩ :=
    exists_reachable_of_run (next_sound epollV1) ⟨3, true, by decide, rfl⟩
      (hungUp (.ok 1) ++ arrive true (.ok [98, newline]) ++ depart (.ok 4096))
      (fun world => ConnEvent.close ∈ world.kernel.log 0 ∧
        Undisturbed [97, newline, 98, newline] (world.kernel.log 0) ∧
        received (world.kernel.log 0) = [97, newline, 98, newline] ∧
        sent (world.kernel.log 0) = complete newline [97, newline, 98, newline])
      (by decide +kernel)
  exact ⟨world, reached, closed, whole.2,
    (half_close_echoed_iff_timely reached undisturbed closed).mp whole⟩

theorem half_close_loses_unread_line :
    ¬ ∀ world, Reachable (system epollV1) world → ∀ id stream,
      Undisturbed stream (world.kernel.log id) → ConnEvent.close ∈ world.kernel.log id →
        received (world.kernel.log id) = stream ∧
          sent (world.kernel.log id) = complete newline stream := by
  intro always
  obtain ⟨world, reached, closed, undisturbed, unread⟩ :=
    exists_reachable_of_run (next_sound epollV1) ⟨3, true, by decide, rfl⟩ (hungUp (.ok 2))
      (fun world => ConnEvent.close ∈ world.kernel.log 0 ∧
        Undisturbed [97, newline, 98, newline] (world.kernel.log 0) ∧
        received (world.kernel.log 0) ≠ [97, newline, 98, newline])
      (by decide +kernel)
  exact unread (always world reached 0 _ undisturbed closed).1

end LinuxSystemPrograms.EpollServerV1
