import LinuxSystemPrograms.EpollServerTable
import Mathlib.Data.Set.Card

/-!
# Arming, releasing and counting the clients of the epoll server

The first two sections are laws of one client. Both rest on the same fact about
`handle_recv`: it gives up with a full `send_buf` only when something was queued before,
because a `send_buf` that is empty takes every line of `recv_message`. The last section
compares the counter `conns` with the clients that exist.
-/

namespace LinuxSystemPrograms.EpollServerLifecycle

open LinuxSystemPrograms.ConnectionAccount
open LinuxSystemPrograms.EchoClient
open LinuxSystemPrograms.EpollServer
open LinuxSystemPrograms.EpollServerTable
open LinuxSystemPrograms.Sockets
open LinuxSystemPrograms.Transition

set_option autoImplicit false

theorem receive_full_pending {echo : LineEcho} (result : RecvResult) (reset : echo.Reset)
    (full : (echo.receive result).2 = .sendBufFull) : echo.queued ≠ [] := by
  intro empty
  rcases receive_cases echo result with
    ⟨_, fits, _, exit⟩ | ⟨_, _, _, exit⟩ | ⟨_, _, exit⟩
  · have noLine := LineEcho.take_in_of_empty (reset empty) fits
    rw [exit, LineEcho.takeInExit, if_neg noLine] at full
    cases full
  · rw [exit] at full
    cases full
  · rw [exit] at full
    split at full <;> cases full

/-- `handle_recv` only ever adds to the queue, and adds nothing unless it takes a chunk in. -/
theorem receive_queue (echo : LineEcho) (result : RecvResult) :
    (echo.queued ≠ [] → (echo.receive result).1.queued ≠ []) ∧
      ((echo.receive result).2 ≠ .drained → (echo.receive result).2 ≠ .sendBufFull →
        (echo.receive result).1 = echo) := by
  rcases receive_cases echo result with
    ⟨_, _, after, exit⟩ | ⟨_, _, after, _⟩ | ⟨_, after, _⟩
  · rw [after, exit]
    refine ⟨fun pending empty => pending (List.append_eq_nil_iff.mp empty).1, ?_⟩
    intro notDrained notFull
    unfold LineEcho.takeInExit at notDrained notFull
    split_ifs at notDrained notFull
    · exact absurd rfl notFull
    · exact absurd rfl notDrained
  · rw [after]
    exact ⟨fun pending => pending, fun _ _ => rfl⟩
  · rw [after]
    exact ⟨fun pending => pending, fun _ _ => rfl⟩

/-! ## Write interest -/

def modSucceeds : Condition := fun _ _ _ answers =>
  answers.ctlModRecv = true ∧ answers.ctlModSend = true

instance (log : List Event) (client : EpollServer.Client) (revents : Events)
    (answers : Answers) : Decidable (modSucceeds log client revents answers) :=
  inferInstanceAs (Decidable (_ ∧ _))

structure Armed (client : EpollServer.Client) (entry : EpollEvent) : Prop where
  reset : client.view.Reset
  out : entry.events.epollout = true ↔ client.queued ≠ []

theorem armed_read {variant : Variant} {ptr : Ptr} {revents : Events} {answers : Answers}
    {client : EpollServer.Client} {entry after : EpollEvent} (armed : Armed client entry)
    (succeeds : answers.ctlModRecv = true)
    (entryEq : (readStage variant ptr revents answers client (some entry)).entry = some after) :
    Armed (readStage variant ptr revents answers client (some entry)).client after := by
  cases readable : revents.epollin with
  | false =>
      rw [read_stage_idle variant ptr answers client (some entry) readable] at entryEq ⊢
      cases entryEq
      exact armed
  | true =>
      have spec := read_stage_spec variant ptr answers client (some entry) readable
      have grows := receive_queue client.view (recv recvBufSize answers.recv)
      have full := receive_full_pending (recv recvBufSize answers.recv) armed.reset
      have queueEq : (readStage variant ptr revents answers client (some entry)).client.queued =
          (client.view.receive (recv recvBufSize answers.recv)).1.queued :=
        congrArg LineEcho.queued spec.view
      rw [spec.entry] at entryEq
      constructor
      · rw [spec.view]
        exact receive_reset armed.reset _
      · rw [queueEq]
        split_ifs at entryEq with arms
        · rw [ctlMod, if_pos succeeds, Option.map_some, Option.some.injEq] at entryEq
          subst entryEq
          exact iff_of_true rfl arms.2
        · cases entryEq
          rw [armed.out]
          refine ⟨grows.1, fun pending => ?_⟩
          have notDrained : (client.view.receive (recv recvBufSize answers.recv)).2 ≠ .drained :=
            fun drained => arms ⟨drained, pending⟩
          by_cases isFull :
              (client.view.receive (recv recvBufSize answers.recv)).2 = .sendBufFull
          · exact full isFull
          · rw [grows.2 notDrained isFull] at pending
            exact pending

theorem armed_write {ptr : Ptr} {revents : Events} {answers : Answers}
    {client : EpollServer.Client} {entry after : EpollEvent} (armed : Armed client entry)
    (succeeds : answers.ctlModSend = true)
    (entryEq : (writeStage ptr revents answers client (some entry)).entry = some after) :
    Armed (writeStage ptr revents answers client (some entry)).client after := by
  cases writable : revents.epollout with
  | false =>
      rw [write_stage_idle ptr answers client (some entry) writable] at entryEq ⊢
      cases entryEq
      exact armed
  | true =>
      have spec := write_stage_spec ptr answers client (some entry) writable
      have queueEq : (writeStage ptr revents answers client (some entry)).client.queued =
          (client.view.flush (send client.queued.length answers.send)).1.queued :=
        congrArg LineEcho.queued spec.view
      rw [spec.entry] at entryEq
      constructor
      · rw [spec.view]
        exact flush_reset armed.reset _
      · rw [queueEq]
        rcases flush_cases client.view (send client.queued.length answers.send) with
          ⟨flushed, _, emptied⟩ | ⟨unfinished, same⟩
        · rw [if_pos flushed, ctlMod, if_pos succeeds, Option.map_some,
            Option.some.injEq] at entryEq
          subst entryEq
          exact iff_of_false Bool.noConfusion fun pending => pending emptied
        · rw [if_neg unfinished] at entryEq
          cases entryEq
          rw [armed.out, ne_eq, ne_eq, same]
          rfl

def interestLaw (variant : Variant) : Law variant modSucceeds where
  Open _ client entry := Armed client entry
  Shut _ := True
  fresh _ _ :=
    { reset := fun _ => rfl
      out := iff_of_false Bool.noConfusion fun pending => pending rfl }
  refused := trivial
  read armed allowed entryEq := armed_read armed allowed.1 entryEq
  keep _ _ armed allowed _ entryEq := armed_write armed allowed.2 entryEq
  drop _ _ _ _ := trivial

/-- Between any two events `EPOLLOUT` is registered for a client exactly while it has bytes
to send. -/
theorem write_interest_iff_pending {world : World}
    (reached : Reachable (guarded (system epollV2) (Allows modSucceeds)) world)
    {fd : Fd} {entry : EpollEvent} (registered : world.server.interest fd = some entry)
    (isClient : entry.ptr ≠ 0) :
    ∃ client, world.server.heap entry.ptr = some client ∧ client.clientFd = fd ∧
      (entry.events.epollout = true ↔ client.sendOffset < client.sendLen) := by
  have table := (reachable_serving (interestLaw epollV2) reached).table
  rcases table.registered fd entry registered with ⟨_, rfl⟩ | ⟨client, live, clientFd⟩
  · exact absurd rfl isClient
  · obtain ⟨_, _, own, _, ownRegistered, _, armed⟩ := table.client entry.ptr client live
    rw [clientFd, registered, Option.some.injEq] at ownRegistered
    rw [← ownRegistered] at armed
    exact ⟨client, live, clientFd, armed.out.trans Client.queued_ne_nil⟩

/-- A line has been queued, and one byte of it is out. -/
theorem write_interest_iff_pending_one_byte :
    ∃ world entry client, Reachable (guarded (system epollV2) (Allows modSucceeds)) world ∧
      world.server.interest 5 = some entry ∧ entry.events.epollout = true ∧
      world.server.heap 1 = some client ∧ client.sendOffset < client.sendLen := by
  obtain ⟨world, reached, registered⟩ := exists_reachable_of_run
    (guarded_next_sound (Allows modSucceeds) (next_sound epollV2)) ⟨3, true, by decide, rfl⟩
    (connect ++ arrive false (.ok [97, newline, 98]) ++ depart (.ok 1))
    (fun world => world.server.interest 5 = some ⟨.readWrite, 1⟩) (by decide +kernel)
  obtain ⟨client, live, _, armed⟩ := write_interest_iff_pending reached registered (by decide)
  exact ⟨world, _, client, reached, registered, rfl, live, armed.mp rfl⟩

/-! ## Release -/

def isHangup : Event → Bool
  | .note (.ofEvent true .disconnected) => true
  | _ => false

/-- `recv` returned 0 on an event carrying `EPOLLRDHUP`. -/
def EndRead (log : List Event) : Prop := ∃ event ∈ log, isHangup event = true

/-- The answer of `recv` marks the client for closing: a hard error, the end of input on an
event with `EPOLLRDHUP`, or a chunk that is too long. -/
def Marks (client : EpollServer.Client) (revents : Events) : RecvResult → Prop
  | .ok chunk =>
      if chunk = [] then revents.epollrdhup = true else messageSize < client.used + chunk.length
  | .error reason => reason ≠ .eagain

instance (client : EpollServer.Client) (revents : Events) :
    (result : RecvResult) → Decidable (Marks client revents result)
  | .ok chunk => inferInstanceAs (Decidable (if chunk = [] then _ else _))
  | .error reason => inferInstanceAs (Decidable (reason ≠ .eagain))

/-- A client is marked only while it has bytes to send. -/
def markedWhilePending : Condition := fun _ client revents answers =>
  revents.epollin = true → Marks client revents (recv recvBufSize answers.recv) →
    client.sendOffset < client.sendLen

instance (log : List Event) (client : EpollServer.Client) (revents : Events)
    (answers : Answers) : Decidable (markedWhilePending log client revents answers) :=
  inferInstanceAs (Decidable (_ → _))

structure Releasable (log : List Event) (client : EpollServer.Client) : Prop where
  reset : client.view.Reset
  ended : EndRead log → client.shouldClose = true
  pending : client.shouldClose = true → client.queued ≠ []

/-- Whatever sets the mark finds output pending, or leaves some. -/
theorem marked_receive_pending {client : EpollServer.Client} {revents : Events}
    {result : RecvResult} (reset : client.view.Reset)
    (allowed : Marks client revents result → client.sendOffset < client.sendLen)
    (marked : recvCodeV2 (client.view.receive result).2 = -1 ∨
      (revents.epollrdhup = true ∧ recvCodeV2 (client.view.receive result).2 ≠ 0)) :
    (client.view.receive result).1.queued ≠ [] := by
  have grows := (receive_queue client.view result).1
  by_cases full : (client.view.receive result).2 = .sendBufFull
  · exact grows (receive_full_pending result reset full)
  · apply grows
    apply Client.queued_ne_nil.mpr
    apply allowed
    rcases receive_cases client.view result with
      ⟨_, _, _, exit⟩ | ⟨some, tooLong, _, _⟩ | ⟨none, _, exit⟩
    · unfold LineEcho.takeInExit at exit
      split_ifs at exit
      · exact absurd exit full
      · rw [exit] at marked
        simp [recvCodeV2] at marked
    · cases result with
      | ok chunk =>
          have notEof : chunk ≠ [] := some
          rw [Marks, if_neg notEof]
          simpa [Client.view, chunkOf] using tooLong
      | error reason => exact absurd rfl some
    · rw [exit] at marked
      cases result with
      | ok chunk =>
          have eof : chunk = [] := none
          rw [Marks, if_pos eof]
          simpa [recvCodeV2] using marked
      | error reason =>
          cases reason with
          | eagain => simp [recvCodeV2] at marked
          | _ => exact Errno.noConfusion

theorem receive_end_read {log : List Event} {echo : LineEcho} {result : RecvResult}
    {rdhup : Bool}
    (ended : EndRead (log ++ recvEvents recvCodeV2 echo result ++
      [.note (.ofEvent rdhup (echo.receive result).2)])) :
    EndRead log ∨ (rdhup = true ∧ (echo.receive result).2 = .disconnected) := by
  obtain ⟨event, member, hangup⟩ := ended
  simp only [recvEvents, List.append_assoc, List.mem_append, List.mem_cons,
    List.not_mem_nil, or_false] at member
  rcases member with old | (rfl | rfl) | rfl
  · exact Or.inl ⟨event, old, hangup⟩
  · cases hangup
  · cases hangup
  · right
    cases rdhup with
    | false => cases hangup
    | true =>
        refine ⟨rfl, ?_⟩
        cases exit : (echo.receive result).2 <;> rw [exit] at hangup <;> first | rfl | cases hangup

theorem releasable_read {ptr : Ptr} {revents : Events} {answers : Answers}
    {log : List Event} {client : EpollServer.Client} {entry : Option EpollEvent}
    (before : Releasable log client) (allowed : markedWhilePending log client revents answers) :
    Releasable (log ++ (readStage epollV2 ptr revents answers client entry).events)
      (readStage epollV2 ptr revents answers client entry).client := by
  cases readable : revents.epollin with
  | false =>
      rw [read_stage_idle epollV2 ptr answers client entry readable, List.append_nil]
      exact before
  | true =>
      have spec := read_stage_spec epollV2 ptr answers client entry readable
      have marked : (readStage epollV2 ptr revents answers client entry).client.shouldClose =
          true ↔ (client.shouldClose = true ∨
            recvCodeV2 (client.view.receive (recv recvBufSize answers.recv)).2 = -1) ∨
          (revents.epollrdhup = true ∧
            recvCodeV2 (client.view.receive (recv recvBufSize answers.recv)).2 ≠ 0) := by
        rw [spec.marked]
        simp [epollV2]
      have queueEq : (readStage epollV2 ptr revents answers client entry).client.queued =
          (client.view.receive (recv recvBufSize answers.recv)).1.queued :=
        congrArg LineEcho.queued spec.view
      constructor
      · rw [spec.view]
        exact receive_reset before.reset _
      · intro ended
        rw [spec.events, ← List.append_assoc] at ended
        rw [marked]
        rcases receive_end_read ended with old | ⟨rdhup, exit⟩
        · exact Or.inl (Or.inl (before.ended old))
        · exact Or.inr ⟨rdhup, by rw [exit]; decide⟩
      · intro close
        rw [marked, or_assoc] at close
        rw [queueEq]
        rcases close with old | new
        · exact (receive_queue client.view _).1 (before.pending old)
        · exact marked_receive_pending before.reset (allowed readable) new

theorem releasable_write {ptr : Ptr} {revents : Events} {answers : Answers}
    {log : List Event} {client : EpollServer.Client} {entry : Option EpollEvent}
    (before : Releasable log client)
    (stays : ¬ Closing (writeStage ptr revents answers client entry)) :
    Releasable (log ++ (writeStage ptr revents answers client entry).events)
      (writeStage ptr revents answers client entry).client := by
  cases writable : revents.epollout with
  | false =>
      rw [write_stage_idle ptr answers client entry writable, List.append_nil]
      exact before
  | true =>
      have spec := write_stage_spec ptr answers client entry writable
      have queueEq : (writeStage ptr revents answers client entry).client.queued =
          (client.view.flush (send client.queued.length answers.send)).1.queued :=
        congrArg LineEcho.queued spec.view
      constructor
      · rw [spec.view]
        exact flush_reset before.reset _
      · rintro ⟨event, member, hangup⟩
        rw [spec.marked]
        rw [spec.events, List.mem_append] at member
        rcases member with old | new
        · exact before.ended ⟨event, old, hangup⟩
        · unfold sendEvents at new
          split_ifs at new <;> simp at new
          · rw [new] at hangup
            cases hangup
          · rcases new with rfl | rfl <;> cases hangup
      · intro close
        rw [queueEq]
        rcases flush_cases client.view (send client.queued.length answers.send) with
          ⟨flushed, _, _⟩ | ⟨_, same⟩
        · -- a marked client whose queue runs empty is closed in the same body
          exact absurd (Or.inr ⟨spec.ret.trans (send_code_eq_one.mpr flushed), close⟩) stays
        · rw [spec.marked] at close
          exact fun empty => before.pending close (same.mp empty)

def releaseLaw : Law epollV2 markedWhilePending where
  Open log client _ := Releasable log client
  Shut _ := True
  fresh _ _ :=
    { reset := fun _ => rfl
      ended := fun ⟨_, member, _⟩ => absurd member List.not_mem_nil
      pending := fun marked => Bool.noConfusion marked }
  refused := trivial
  read before allowed _ := releasable_read before allowed
  keep _ _ before _ stays _ := releasable_write before stays
  drop _ _ _ _ := trivial

/-- The clients that `main` has finished with, still registered. -/
def Stranded (world : World) (ptr : Ptr) : Prop :=
  ∃ client entry id, world.server.heap ptr = some client ∧
    world.server.interest client.clientFd = some entry ∧ entry.ptr = ptr ∧
    world.kernel.file client.clientFd = .conn id ∧
    (EndRead (world.kernel.log id) ∨ client.shouldClose = true) ∧
    client.sendLen = client.sendOffset

/-- As long as clients are marked only while they have output pending, none is left behind. -/
theorem no_client_stranded {world : World}
    (reached : Reachable (guarded (system epollV2) (Allows markedWhilePending)) world)
    (ptr : Ptr) : ¬ Stranded world ptr := by
  rintro ⟨client, _, id, live, _, _, owner, finished, flushed⟩
  obtain ⟨_, otherId, _, otherOwner, _, _, releasable⟩ :=
    (reachable_serving releaseLaw reached).table.client ptr client live
  rw [owner, File.conn.injEq] at otherOwner
  rw [← otherOwner] at releasable
  have marked : client.shouldClose = true := finished.elim releasable.ended fun marked => marked
  exact releasable.pending marked (Client.queued_eq_nil.mpr flushed)

/-- The peer hangs up while its line is still queued. -/
theorem no_client_stranded_pending :
    ∃ world client, Reachable (guarded (system epollV2) (Allows markedWhilePending)) world ∧
      world.server.heap 1 = some client ∧ client.shouldClose = true ∧ ¬ Stranded world 1 := by
  obtain ⟨world, reached, marked⟩ := exists_reachable_of_run
    (guarded_next_sound (Allows markedWhilePending) (next_sound epollV2))
    ⟨3, true, by decide, rfl⟩
    (connect ++ arrive false (.ok [97, newline]) ++ arrive true (.ok []))
    (fun world => ((world.server.heap 1).any fun client => client.shouldClose) = true)
    (by decide +kernel)
  obtain ⟨client, live, isMarked⟩ := (Option.any_eq_true _ _).mp marked
  exact ⟨world, client, reached, live, isMarked, no_client_stranded reached 1⟩

/-- A peer that hangs up while nothing is pending is never released. -/
theorem idle_client_stranded :
    ¬ ∀ world, Reachable (system epollV2) world → world.server.evs = [] →
      ∀ ptr, ¬ Stranded world ptr := by
  intro never
  obtain ⟨world, reached, atWait, marked, registered, owner⟩ := exists_reachable_of_run
    (next_sound epollV2) ⟨3, true, by decide, rfl⟩ (connect ++ arrive true (.ok []))
    (fun world => world.server.evs = [] ∧
      ((world.server.heap 1).any fun client => client.shouldClose &&
        decide (client.sendLen = client.sendOffset) && decide (client.clientFd = 5)) = true ∧
      world.server.interest 5 = some ⟨.read, 1⟩ ∧ world.kernel.file 5 = .conn 0)
    (by decide +kernel)
  obtain ⟨client, live, facts⟩ := (Option.any_eq_true _ _).mp marked
  simp only [Bool.and_eq_true, decide_eq_true_eq] at facts
  obtain ⟨⟨close, flushed⟩, clientFd⟩ := facts
  exact never world reached atWait 1 ⟨client, ⟨.read, 1⟩, 0, live, by rw [clientFd, registered],
    rfl, by rw [clientFd, owner], Or.inr close, flushed⟩

/-! ## The connection counter -/

def allocated (heap : Ptr → Option EpollServer.Client) : Set Ptr :=
  {ptr | ∃ client, heap ptr = some client}

theorem allocated_insert (heap : Ptr → Option EpollServer.Client) (ptr : Ptr)
    (client : EpollServer.Client) :
    allocated (Function.update heap ptr (some client)) = insert ptr (allocated heap) := by
  ext other
  by_cases same : other = ptr
  · simp [allocated, same]
  · simp [allocated, same]

theorem allocated_remove (heap : Ptr → Option EpollServer.Client) (ptr : Ptr) :
    allocated (Function.update heap ptr none) = allocated heap \ {ptr} := by
  ext other
  by_cases same : other = ptr
  · simp [allocated, same]
  · simp [allocated, same]

/-- A `send` that `handle_send` answers with `-1`. -/
def hardFailure : Event → Bool
  | .send _ (.ok 0) => true
  | .send _ (.error .eagain) => false
  | .send _ (.error .eintr) => false
  | .send _ (.error _) => true
  | _ => false

/-- Some `send` of the run has failed for another reason than `EAGAIN` or `EINTR`. -/
def SendFailed (kernel : Kernel Return) : Prop :=
  ∃ id, ∃ event ∈ kernel.log id, hardFailure event = true

theorem send_failed_record {kernel : Kernel Return} {id : Nat} {events : List Event} :
    SendFailed (kernel.record id events) ↔
      SendFailed kernel ∨ ∃ event ∈ events, hardFailure event = true := by
  constructor
  · rintro ⟨other, event, member, failed⟩
    by_cases same : other = id
    · rw [same, Kernel.record_log_same, List.mem_append] at member
      rcases member with old | new
      · exact Or.inl ⟨id, event, old, failed⟩
      · exact Or.inr ⟨event, new, failed⟩
    · rw [Kernel.record_log_other _ _ same] at member
      exact Or.inl ⟨other, event, member, failed⟩
  · rintro (⟨other, event, member, failed⟩ | ⟨event, member, failed⟩)
    · refine ⟨other, event, ?_, failed⟩
      by_cases same : other = id
      · rw [same, Kernel.record_log_same]
        exact List.mem_append_left _ (same ▸ member)
      · rwa [Kernel.record_log_other _ _ same]
    · refine ⟨id, event, ?_, failed⟩
      rw [Kernel.record_log_same]
      exact List.mem_append_right _ member

theorem send_code_failed (echo : LineEcho) (result : SendResult) :
    (∃ event ∈ sendEvents sendCode echo result, hardFailure event = true) ↔
      sendCode (echo.flush result).2 = -1 := by
  by_cases empty : echo.queued = []
  · simp [sendEvents, LineEcho.flush, empty, hardFailure, sendCode]
  · cases result with
    | error reason =>
        cases reason <;> simp [sendEvents, LineEcho.flush, empty, hardFailure, sendCode]
    | ok count =>
        cases count with
        | zero => simp [sendEvents, LineEcho.flush, empty, hardFailure, sendCode]
        | succ count =>
            by_cases last : echo.queued.drop (count + 1) = []
            · simp [sendEvents, LineEcho.flush, empty, hardFailure, last, sendCode]
            · simp [sendEvents, LineEcho.flush, empty, hardFailure, last, sendCode]

/-- `handle_send` returns `-1` exactly when its `send` has failed for good. -/
theorem serve_event_failed {variant : Variant} {event : EpollEvent} {answers : Answers}
    {client : EpollServer.Client} {entry : Option EpollEvent} :
    (∃ logged ∈ (serveEvent variant event answers client entry).events,
        hardFailure logged = true) ↔
      (serveEvent variant event answers client entry).ret = -1 := by
  have silent : ∀ logged ∈ (readStage variant event.ptr event.events answers client entry).events,
      hardFailure logged = false := by
    cases readable : event.events.epollin with
    | false =>
        rw [read_stage_idle variant event.ptr answers client entry readable]
        exact fun logged member => absurd member List.not_mem_nil
    | true =>
        rw [(read_stage_spec variant event.ptr answers client entry readable).events]
        simp [recvEvents, hardFailure]
  have byWrite : (∃ logged ∈ (serveEvent variant event answers client entry).events,
      hardFailure logged = true) ↔
        ∃ logged ∈ (writeStage event.ptr event.events answers
          (readStage variant event.ptr event.events answers client entry).client
          (readStage variant event.ptr event.events answers client entry).entry).events,
          hardFailure logged = true := by
    constructor
    · rintro ⟨logged, member, failed⟩
      rcases List.mem_append.mp member with old | new
      · rw [silent logged old] at failed
        cases failed
      · exact ⟨logged, new, failed⟩
    · rintro ⟨logged, member, failed⟩
      exact ⟨logged, List.mem_append_right _ member, failed⟩
  rw [byWrite]
  unfold serveEvent
  cases writable : event.events.epollout with
  | false =>
      simp [write_stage_idle event.ptr answers _ _ writable]
  | true =>
      have spec := write_stage_spec event.ptr answers
        (readStage variant event.ptr event.events answers client entry).client
        (readStage variant event.ptr event.events answers client entry).entry writable
      rw [spec.events, spec.ret]
      exact send_code_failed _ _

def anyLaw (variant : Variant) : Law variant anyEvent where
  Open _ _ _ := True
  Shut _ := True
  fresh _ _ := trivial
  refused := trivial
  read _ _ _ := trivial
  keep _ _ _ _ _ _ := trivial
  drop _ _ _ _ := trivial

/-- `leaked` counts the clients that were freed without `conns--`. -/
structure Counted (variant : Variant) (world : World) (leaked : Nat) : Prop where
  finite : (allocated world.server.heap).Finite
  count : world.server.conns = (allocated world.server.heap).ncard + leaked
  bound : world.server.conns ≤ variant.maxConnections
  clean : leaked = 0 ↔ ¬ SendFailed world.kernel

theorem refuse_send_failed {kernel : Kernel Return} (formed : kernel.WellFormed) (fd : Fd) :
    SendFailed (kernel.exec [.accept fd, .io fd .close]) ↔ SendFailed kernel := by
  constructor
  · rintro ⟨id, event, member, failed⟩
    by_cases newest : id = kernel.accepted
    · rw [newest, Kernel.refuse_log_new formed, List.mem_singleton] at member
      rw [member] at failed
      cases failed
    · rw [Kernel.refuse_log_other _ _ newest] at member
      exact ⟨id, event, member, failed⟩
  · rintro ⟨id, event, member, failed⟩
    have old : id ≠ kernel.accepted := by
      rintro rfl
      rw [formed.fresh _ (Nat.le_refl _)] at member
      cases member
    exact ⟨id, event, by rwa [Kernel.refuse_log_other _ _ old], failed⟩

theorem handle_counted {variant : Variant} {world after : World} {answers : Answers}
    {leaked : Nat} (serving : Serving (anyLaw variant) world)
    (honest : Honest variant world (.handle answers)) (counted : Counted variant world leaked)
    (advanced : advance variant world (.handle answers) = some after) :
    ∃ leaked, Counted variant after leaked := by
  cases evs : world.server.evs with
  | nil => simp [advance, evs] at advanced
  | cons event rest =>
      simp only [advance, evs, Option.map_eq_some_iff] at advanced
      obtain ⟨done, dispatched, rfl⟩ := advanced
      have table := serving.table
      rcases dispatch_cases dispatched with
        rfl | ⟨fd, accepted, rfl⟩ | ⟨fd, ptr, accepted, allocated, room, rfl⟩ |
          ⟨client, served, live, servedEq, outcome⟩
      · exact ⟨leaked, counted.finite, counted.count, counted.bound, counted.clean⟩
      · exact ⟨leaked, counted.finite, counted.count, counted.bound, by
          rw [refuse_send_failed table.formed]
          exact counted.clean⟩
      · have free : ptr ∉ EpollServerLifecycle.allocated world.server.heap := by
          rintro ⟨client, live⟩
          rw [(honest.2 ptr allocated).2] at live
          cases live
        refine ⟨leaked, ?_, ?_, ?_, counted.clean⟩
        · simp only [allocated_insert]
          exact counted.finite.insert ptr
        · simp only [allocated_insert, Set.ncard_insert_of_notMem free counted.finite]
          have count := counted.count
          simp only [addConn]
          omega
        · simp only [full, addConn] at room ⊢
          omega
      · obtain ⟨_, id, entry, owner, registered, _, _⟩ := table.client event.ptr client live
        rw [registered] at servedEq
        subst servedEq
        have noClose := serve_event_no_close variant event answers client (some entry)
        have member : event.ptr ∈ EpollServerLifecycle.allocated world.server.heap :=
          ⟨client, live⟩
        have removed := Set.ncard_sdiff_singleton_add_one member counted.finite
        have count := counted.count
        have bound := counted.bound
        rcases outcome with ⟨staying, rfl⟩ | ⟨closing, rfl⟩
        · have same : EpollServerLifecycle.allocated (Function.update world.server.heap event.ptr
              (some (serveEvent variant event answers client (some entry)).client)) =
                EpollServerLifecycle.allocated world.server.heap := by
            rw [allocated_insert, Set.insert_eq_of_mem member]
          refine ⟨leaked, ?_, ?_, bound, ?_⟩
          · simpa only [same] using counted.finite
          · simpa only [same] using count
          · simp only [Kernel.exec_io_open owner _ noClose, send_failed_record,
              serve_event_failed]
            have success : (serveEvent variant event answers client (some entry)).ret ≠ -1 :=
              fun failed => staying (Or.inl failed)
            simpa [success] using counted.clean
        · have failedIff : SendFailed (world.kernel.exec
              (((serveEvent variant event answers client (some entry)).events ++
                [ConnEvent.close]).map (.io client.clientFd))) ↔
              SendFailed world.kernel ∨
                (serveEvent variant event answers client (some entry)).ret = -1 := by
            have released : ∀ kernel : Kernel Return,
                SendFailed (kernel.release client.clientFd) ↔ SendFailed kernel :=
              fun _ => Iff.rfl
            rw [Kernel.exec_io_close owner _ noClose, released, send_failed_record,
              ← serve_event_failed]
            simp [hardFailure]
          by_cases failed : (serveEvent variant event answers client (some entry)).ret = -1
          · refine ⟨leaked + 1, ?_, ?_, ?_, ?_⟩
            · simp only [failed, if_true, destroy, allocated_remove]
              exact counted.finite.sdiff
            · simp only [failed, if_true, destroy, allocated_remove]
              omega
            · simpa only [failed, if_true, destroy] using bound
            · simp only [failedIff, failed, or_true, not_true_eq_false, iff_false]
              omega
          · refine ⟨leaked, ?_, ?_, ?_, ?_⟩
            · simp only [failed, if_false, destroy, allocated_remove]
              exact counted.finite.sdiff
            · simp only [failed, if_false, destroy, dropConn, allocated_remove]
              omega
            · simp only [failed, if_false, destroy, dropConn]
              omega
            · simpa only [failedIff, failed, or_false] using counted.clean

theorem reachable_counted {variant : Variant} (room : 0 ≤ variant.maxConnections)
    {world : World} (reached : Reachable (system variant) world) :
    ∃ leaked, Counted variant world leaked := by
  apply reachable_invariant _ _ reached
  · rintro _ ⟨serverFd, added, _, rfl⟩
    have empty : allocated (boot serverFd added).server.heap = ∅ := by
      simp [allocated, boot]
    refine ⟨0, ?_, ?_, room, ?_⟩
    · rw [empty]
      exact Set.finite_empty
    · rw [empty, Set.ncard_empty]
      rfl
    · simp [SendFailed, boot, Kernel.boot]
  · rintro world label after prior ⟨leaked, counted⟩ ⟨honest, advanced⟩
    cases label with
    | wait report =>
        cases evs : world.server.evs with
        | cons event rest => simp [advance, evs] at advanced
        | nil =>
            simp only [advance, evs, Option.some.injEq] at advanced
            subst advanced
            exact ⟨leaked, counted.finite, counted.count, counted.bound, counted.clean⟩
    | handle answers =>
        exact handle_counted (reachable_serving_any (anyLaw variant) prior) honest counted advanced

def live (world : World) : Set Ptr :=
  {ptr | ∃ client entry id, world.server.heap ptr = some client ∧
    world.server.interest client.clientFd = some entry ∧ entry.ptr = ptr ∧
    world.kernel.file client.clientFd = .conn id}

theorem live_eq_allocated {variant : Variant} {world : World}
    (reached : Reachable (system variant) world) : live world = allocated world.server.heap := by
  ext ptr
  constructor
  · rintro ⟨client, _, _, found, _⟩
    exact ⟨client, found⟩
  · rintro ⟨client, found⟩
    obtain ⟨_, id, entry, owner, registered, own, _⟩ :=
      (reachable_serving_any (anyLaw variant) reached).table.client ptr client found
    exact ⟨client, entry, id, found, registered, own, owner⟩

/-- The counter is exact, stays in range, and shows a full server only when it is full. -/
structure CounterExact (variant : Variant) (world : World) : Prop where
  finite : (live world).Finite
  exact : world.server.conns = (live world).ncard
  lower : 0 ≤ world.server.conns
  upper : world.server.conns ≤ variant.maxConnections
  refusal : full variant world.server → ((live world).ncard : Int) = variant.maxConnections

theorem counter_exact_iff {variant : Variant} (room : 0 ≤ variant.maxConnections)
    {world : World} (reached : Reachable (system variant) world) :
    CounterExact variant world ↔ ¬ SendFailed world.kernel := by
  obtain ⟨leaked, counted⟩ := reachable_counted room reached
  have count := counted.count
  have bound := counted.bound
  rw [← counted.clean]
  constructor
  · intro exact
    have same := exact.exact
    rw [live_eq_allocated reached] at same
    omega
  · intro none
    rw [none] at count
    constructor
    · rw [live_eq_allocated reached]
      exact counted.finite
    · rw [live_eq_allocated reached]
      omega
    · omega
    · exact bound
    · intro isFull
      rw [live_eq_allocated reached]
      simp only [full, addConn] at isFull
      omega

/-- `conns` is the number of open clients exactly until a `send` fails for good: that path
frees the client and forgets the counter. -/
theorem conns_exact_iff_no_send_failed {world : World}
    (reached : Reachable (system epollV2) world) :
    CounterExact epollV2 world ↔ ¬ SendFailed world.kernel :=
  counter_exact_iff (by decide) reached

theorem conns_exact_iff_no_send_failed_one_line :
    ∃ world, Reachable (system epollV2) world ∧ world.server.conns = 1 ∧
      sent (world.kernel.log 0) = [97, newline] ∧
      (CounterExact epollV2 world ↔ ¬ SendFailed world.kernel) := by
  obtain ⟨world, reached, counted, echoed⟩ := exists_reachable_of_run (next_sound epollV2)
    ⟨3, true, by decide, rfl⟩
    (connect ++ arrive false (.ok [97, newline, 98]) ++ depart (.ok 4096))
    (fun world => world.server.conns = 1 ∧ sent (world.kernel.log 0) = [97, newline])
    (by decide +kernel)
  exact ⟨world, reached, counted, echoed, conns_exact_iff_no_send_failed reached⟩

/-- A reset peer costs one connection for ever. -/
theorem conns_leaks :
    ¬ ∀ world, Reachable (system epollV2) world → world.server.evs = [] →
      CounterExact epollV2 world := by
  intro always
  obtain ⟨world, reached, atWait, failed⟩ := exists_reachable_of_run (next_sound epollV2)
    ⟨3, true, by decide, rfl⟩
    (connect ++ arrive false (.ok [97, newline]) ++ depart (.error .econnreset))
    (fun world => world.server.evs = [] ∧
      ∃ event ∈ world.kernel.log 0, hardFailure event = true)
    (by decide +kernel)
  exact (counter_exact_iff (by decide) reached).mp (always world reached atWait) ⟨0, failed⟩

end LinuxSystemPrograms.EpollServerLifecycle
