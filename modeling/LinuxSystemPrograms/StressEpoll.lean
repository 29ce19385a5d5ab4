import LinuxSystemPrograms.EpollServerV1
import LinuxSystemPrograms.StressEchoCompletion

/-!
# A connection of the stress client served by an epoll server

The client's side of the link is that of `StressEcho`. The server's side is the loop body of
either version for one event of this connection: both branches, the marks, and the interest
list that `epoll_ctl` keeps; `event_dispatch` shows that it is the loop body of the server as
far as it concerns the connection. A record that has been freed stays in the link as one
without a descriptor.
-/

namespace LinuxSystemPrograms.StressEpoll

open LinuxSystemPrograms.ConnectionAccount
open LinuxSystemPrograms.EchoClient (LineEcho recvBufSize sendBufSize)
open LinuxSystemPrograms.EchoExchange
open LinuxSystemPrograms.EpollServer
open LinuxSystemPrograms.EpollServerV1
open LinuxSystemPrograms.Sockets
open LinuxSystemPrograms.StressEcho (Accepts Delivers Opened Report)
open LinuxSystemPrograms.StressEchoStage (Busy Proper Quiet Stage completions)
open LinuxSystemPrograms.Transition

set_option autoImplicit false

/-- `slot` is the record that `evs[i].data.ptr` points to, without its mark. -/
structure Link extends StressEcho.Link where
  shouldClose : Bool
  entry : Option EpollEvent

inductive Move where
  | client (move : StressEcho.Move)
  | event (revents : Events) (answers : Answers)

def ofServer : StressEcho.Move → Bool
  | .serverRecv _ => true
  | .serverSend _ => true
  | _ => false

instance (handled : Handled) : Decidable (Closing handled) :=
  inferInstanceAs (Decidable (_ ∨ _))

namespace Link

def record (link : Link) : EpollServer.Client := ⟨link.slot, link.shouldClose⟩

/-- The values of the handlers that the event calls. -/
def returns (variant : Variant) (event : EpollEvent) (answers : Answers) (link : Link) :
    List Report :=
  (if event.events.epollin then
      [.serverRecv (readStage variant event.ptr event.events answers link.record link.entry).ret]
    else []) ++
    if event.events.epollout then
      [.serverSend (serveEvent variant event answers link.record link.entry).ret]
    else []

def serve (variant : Variant) (event : EpollEvent) (answers : Answers) (link : Link) : Link :=
  let served := serveEvent variant event answers link.record link.entry
  let after := served.client.toClient
  { client := link.client
    slot := if Closing served then after.reset else after
    toServer := link.toServer.drop (received served.events).length
    toClient := link.toClient ++ sent served.events
    history := link.history ++ link.returns variant event answers
    shouldClose := served.client.shouldClose
    entry := if Closing served then none else served.entry }

def advance (variant : Variant) (ptr : Ptr) (requests : UInt64) (link : Link) :
    Move → Option Link
  | .client move =>
      if ofServer move then none
      else (StressEcho.Link.advance requests link.toLink move).map fun base =>
        { link with toLink := base }
  | .event revents answers =>
      if link.slot.clientFd = -1 then none
      else some (link.serve variant ⟨revents, ptr⟩ answers)

end Link

/-- No system call of either process fails, save for `EAGAIN` anywhere and `EINTR` where the
code expects it. `EPOLLRDHUP` is reported when the client has closed. -/
def Honest (requests : UInt64) (link : Link) : Move → Prop
  | .client move => StressEcho.Honest requests link.toLink move
  | .event revents answers =>
      (∃ entry ∈ link.entry, entry.events.Reports revents) ∧
        (revents.epollrdhup = true → link.clientFd = -1) ∧
        (revents.epollin = true →
          Delivers link.toServer (link.clientFd = -1) [.eagain] answers.recv) ∧
        (revents.epollout = true → Accepts answers.send) ∧
        answers.ctlModRecv = true ∧ answers.ctlModSend = true

/-- The connection is made, `client` is allocated for it and watched. -/
structure Started (id : Int32) (ptr : Ptr) (link : Link) : Prop where
  opened : Opened id link.toLink
  unmarked : link.shouldClose = false
  entry : link.entry = some ⟨.read, ptr⟩

def system (variant : Variant) (ptr : Ptr) (requests : UInt64) (id : Int32) :
    System Link Move where
  init := Started id ptr
  step link move after := Honest requests link move ∧
    link.advance variant ptr requests move = some after

/-- The event is handled by the server as by the link: what the loop body does to the record at
`ptr` and to the interest list, and the calls that it makes on the descriptor. -/
theorem event_dispatch {variant : Variant} {event : EpollEvent} {answers : Answers} {link : Link}
    {server : Server} (pointer : event.ptr ≠ 0)
    (live : server.heap event.ptr = some link.record)
    (watched : server.interest link.slot.clientFd = link.entry)
    (asked : event.events.epollin = true ∨ event.events.epollout = true) :
    ∃ after events, dispatch variant answers event server =
        some (after, events.map (.io link.slot.clientFd)) ∧
      after.interest link.slot.clientFd = (link.serve variant event answers).entry ∧
      (after.heap event.ptr = none ∧ (link.serve variant event answers).slot.clientFd = -1 ∨
        after.heap event.ptr = some (link.serve variant event answers).record) ∧
      (link.serve variant event answers).toServer = link.toServer.drop (received events).length ∧
      (link.serve variant event answers).toClient = link.toClient ++ sent events := by
  have served : dispatch variant answers event server =
      some (serveClient variant event answers link.record server) := by
    rw [dispatch, if_neg (by simp [pointer]), if_pos asked, live]
    rfl
  have fd : link.record.clientFd = link.slot.clientFd := rfl
  rw [served, serveClient, fd, watched, Link.serve]
  generalize serveEvent variant event answers link.record link.entry = handled
  by_cases failed : handled.ret = -1
  · have closing : Closing handled := Or.inl failed
    refine ⟨_, handled.events ++ [.close], by rw [if_pos failed], ?_, Or.inl ⟨?_, ?_⟩, ?_, ?_⟩
    · simp [destroy, closing]
    · simp [destroy]
    · simp [closing, EchoClient.Client.reset]
    · simp [ConnEvent.receivedBytes]
    · simp [ConnEvent.sentBytes]
  · by_cases last : handled.ret = 1 ∧ handled.client.shouldClose = true
    · have closing : Closing handled := Or.inr last
      refine ⟨_, handled.events ++ [.close], by rw [if_neg failed, if_pos last], ?_,
        Or.inl ⟨?_, ?_⟩, ?_, ?_⟩
      · simp [destroy, closing]
      · simp [destroy]
      · simp [closing, EchoClient.Client.reset]
      · simp [ConnEvent.receivedBytes]
      · simp [ConnEvent.sentBytes]
    · have goesOn : ¬ Closing handled := not_or.mpr ⟨failed, last⟩
      refine ⟨_, handled.events, by rw [if_neg failed, if_neg last], ?_, Or.inr ?_, rfl, rfl⟩
      · simp [goesOn]
      · simp [goesOn, Link.record]

/-! ## What the server's calls do to the stage of the link -/

section Base

variable {requests : UInt64} {id : Int32} {link : StressEcho.Link}

theorem stage_history (stage : Stage requests id link) (history : List Report) :
    Stage requests id { link with history := history } := by
  cases stage with
  | fresh isOpen sameId connecting next completed slot quiet =>
      exact .fresh isOpen sameId connecting next completed slot
        ⟨quiet.position, quiet.toServer, quiet.toClient, quiet.slot⟩
  | busy busy =>
      exact .busy ⟨busy.isOpen, busy.sameId, busy.inFlight, busy.request, busy.slot,
        busy.exchange, busy.doing⟩
  | finished closed completed quiet =>
      exact .finished closed completed
        ⟨quiet.position, quiet.toServer, quiet.toClient, quiet.slot⟩

theorem quiet_of_closed (sound : StressEchoStage.Sound requests id link)
    (closed : link.clientFd = -1) :
    link.client.seat.client.requestCompleted = requests ∧ Quiet link := by
  cases sound.stage with
  | fresh isOpen sameId connecting next completed slot quiet => exact absurd closed isOpen
  | busy busy => exact absurd closed busy.isOpen
  | finished closed completed quiet => exact ⟨completed, quiet⟩

theorem recv_code_fine {exit : EchoClient.RecvExit} (fine : SelectServerV2.recvCode exit ≠ -1) :
    exit = .drained ∨ exit = .again := by
  cases exit <;> simp [SelectServerV2.recvCode] at fine ⊢

/-- A `recv` of the server: before the client has closed it is a move of the select server
that succeeds. -/
theorem receive_stage (sound : StressEchoStage.Sound requests id link)
    (serving : link.slot.clientFd ≠ -1) {ready : RecvResult}
    (delivers : Delivers link.toServer (link.clientFd = -1) [.eagain] ready) :
    Stage requests id { link with
        slot := (link.slot.receive ready).1
        toServer := link.toServer.drop (chunkOf (recv recvBufSize ready)).length } ∧
      ((link.slot.receive ready).2 = .drained ∨ (link.slot.receive ready).2 = .again ∨
        (link.clientFd = -1 ∧ (link.slot.receive ready).2 = .disconnected)) := by
  obtain ⟨view, exit, _⟩ := EchoClient.Client.receive_view link.slot ready
  by_cases closed : link.clientFd = -1
  · obtain ⟨completed, quiet⟩ := quiet_of_closed sound closed
    have outcome : (link.slot.receive ready).1.view = LineEcho.empty ∧
        ((link.slot.receive ready).2 = .again ∨ (link.slot.receive ready).2 = .disconnected) := by
      rw [view, exit, quiet.slot]
      rcases StressEchoTurns.delivers_cases delivers (by decide : 0 < recvBufSize) with
        ⟨chunk, rest, nonempty, split, _⟩ | ⟨_, _, result⟩ | ⟨reason, expected, result⟩
      · rw [quiet.toServer] at split
        exact absurd (List.append_eq_nil_iff.mp split.symm).1 nonempty
      · rw [result]
        exact ⟨rfl, Or.inr rfl⟩
      · rw [List.mem_singleton] at expected
        rw [result, expected]
        exact ⟨rfl, Or.inl rfl⟩
    refine ⟨.finished closed completed ⟨quiet.position, ?_, quiet.toClient, outcome.1⟩,
      Or.inr (outcome.2.imp_right fun gone => ⟨closed, gone⟩)⟩
    dsimp only
    rw [quiet.toServer, List.drop_nil]
  · have events := (recv_handler_spec SelectServerV2.recvCode link.slot ready).2.2.2
    have moved : StressEcho.Link.advance requests link (.serverRecv ready) = some
        { link with
          slot := StressEcho.closeOn (SelectServerV2.recvCode (link.slot.receive ready).2)
            (link.slot.receive ready).1
          toServer := link.toServer.drop (chunkOf (recv recvBufSize ready)).length
          history := link.history ++
            [.serverRecv (SelectServerV2.recvCode (link.slot.receive ready).2)] } := by
      rw [StressEcho.Link.advance, if_neg serving]
      simp only [SelectServerV2.handleRecv, events, received_recv_events]
      rfl
    have after := StressEchoStage.server_recv_keeps sound delivers moved
    have fine : SelectServerV2.recvCode (link.slot.receive ready).2 ≠ -1 :=
      after.proper (.serverRecv _) (by simp) closed
    refine ⟨?_, (recv_code_fine fine).imp_right Or.inl⟩
    have stage := after.stage
    rw [StressEcho.closeOn, if_neg fine] at stage
    exact stage_history stage link.history

theorem sent_code (first second : EchoClient.SendExit → Int) (echo : LineEcho)
    (result : SendResult) :
    sent (sendEvents first echo result) = sent (sendEvents second echo result) := by
  simp [sendEvents, ConnEvent.sentBytes]

theorem send_code_fine (exit : EchoClient.SendExit) :
    sendCode exit = -1 ↔ SelectServerV2.sendCode exit = -1 := by
  cases exit <;> decide

/-- A `send` of the server is a move of the select server, except for what it returns. -/
theorem flush_stage (sound : StressEchoStage.Sound requests id link)
    (serving : link.slot.clientFd ≠ -1) {room : SendResult} (accepts : Accepts room) :
    Stage requests id { link with
        slot := (link.slot.flush room).1
        toClient := link.toClient ++
          sent (sendEvents sendCode link.slot.view (send link.slot.queued.length room)) } ∧
      sendCode (link.slot.flush room).2 ≠ -1 := by
  obtain ⟨view, exit, _⟩ := EchoClient.Client.flush_view link.slot room
  have events := (send_handler_spec SelectServerV2.sendCode link.slot room).2.2.2
  have fine : SelectServerV2.sendCode (link.slot.flush room).2 ≠ -1 := by
    rw [exit]
    exact StressEchoStage.flush_code_fine link.slot.view accepts rfl
  have moved : StressEcho.Link.advance requests link (.serverSend room) = some
      { link with
        slot := StressEcho.closeOn (SelectServerV2.sendCode (link.slot.flush room).2)
          (link.slot.flush room).1
        toClient := link.toClient ++
          sent (sendEvents sendCode link.slot.view (send link.slot.queued.length room))
        history := link.history ++
          [.serverSend (SelectServerV2.sendCode (link.slot.flush room).2)] } := by
    rw [StressEcho.Link.advance, if_neg serving, sent_code sendCode SelectServerV2.sendCode]
    simp only [SelectServerV2.handleSend, events]
    rfl
  have stage := (StressEchoStage.server_send_keeps sound accepts moved).stage
  rw [StressEcho.closeOn, if_neg fine] at stage
  exact ⟨stage_history stage link.history, fun failed => fine ((send_code_fine _).mp failed)⟩

end Base

/-! ## The invariant of the link -/

/-- `EPOLLOUT` is asked for while something is queued. -/
def mask (echo : LineEcho) : Events := if echo.queued = [] then .read else .readWrite

structure Sound (requests : UInt64) (id : Int32) (ptr : Ptr) (link : Link) : Prop where
  base : StressEchoStage.Sound requests id link.toLink
  serving : link.slot.clientFd ≠ -1
  unmarked : link.clientFd ≠ -1 → link.shouldClose = false
  armed : link.entry = some ⟨mask link.slot.view, ptr⟩

variable {variant : Variant} {requests : UInt64} {id : Int32} {ptr : Ptr} {link : Link}

def Known (variant : Variant) : Prop := variant = epollV1 ∨ variant = epollV2

theorem known_code (known : Known variant) {exit : EchoClient.RecvExit}
    (fine : exit = .drained ∨ exit = .again) : variant.recvCode exit = 0 := by
  rcases known with rfl | rfl
  · rcases fine with rfl | rfl
    · rfl
    · rfl
  · rcases fine with rfl | rfl
    · rfl
    · rfl

theorem mask_idle {echo : LineEcho} (idle : echo.queued = []) : mask echo = .read := if_pos idle

theorem mask_pending {echo : LineEcho} (pending : echo.queued ≠ []) : mask echo = .readWrite :=
  if_neg pending

/-- The mask follows the queue, unless a line was left over for want of room. -/
theorem receive_mask {echo : LineEcho} {result : RecvResult} {entry : Option EpollEvent}
    (armed : entry = some ⟨mask echo, ptr⟩) (room : (echo.receive result).2 ≠ .sendBufFull) :
    (if (echo.receive result).2 = .drained ∧ (echo.receive result).1.queued ≠ [] then
        ctlMod entry ⟨.readWrite, ptr⟩ true
      else entry) = some ⟨mask (echo.receive result).1, ptr⟩ := by
  subst armed
  rcases receive_cases echo result with ⟨_, _, after, exit⟩ | ⟨_, _, after, exit⟩ | ⟨_, after, exit⟩
  · have drained : (echo.receive result).2 = .drained := by
      rw [exit, LineEcho.takeInExit] at room ⊢
      split_ifs at room ⊢
      · exact absurd rfl room
      · rfl
    by_cases pending : (echo.receive result).1.queued = []
    · have idle : echo.queued = [] := by
        rw [after] at pending
        exact (List.append_eq_nil_iff.mp pending).1
      rw [if_neg (fun both => both.2 pending), mask_idle idle, mask_idle pending]
    · rw [if_pos ⟨drained, pending⟩, mask_pending pending]
      rfl
  · rw [after, exit, if_neg (by simp)]
  · rw [after, if_neg]
    rintro ⟨drained, _⟩
    rw [exit] at drained
    split at drained <;> cases drained

theorem flush_mask {echo : LineEcho} {result : SendResult} {entry : Option EpollEvent}
    (armed : entry = some ⟨mask echo, ptr⟩) :
    (if (echo.flush result).2 = .flushed then ctlMod entry ⟨.read, ptr⟩ true else entry) =
      some ⟨mask (echo.flush result).1, ptr⟩ := by
  subst armed
  rcases flush_cases echo result with ⟨flushed, _, empty⟩ | ⟨goesOn, same⟩
  · rw [if_pos flushed, mask_idle empty]
    rfl
  · rw [if_neg goesOn, mask, mask]
    simp only [same]

def Link.read (variant : Variant) (event : EpollEvent) (answers : Answers) (link : Link) : Link :=
  let read := readStage variant event.ptr event.events answers link.record link.entry
  { link with
    slot := read.client.toClient
    toServer := link.toServer.drop (received read.events).length
    history := link.history ++ if event.events.epollin then [.serverRecv read.ret] else []
    shouldClose := read.client.shouldClose
    entry := read.entry }

theorem read_idle {revents : Events} (idle : revents.epollin = false) (answers : Answers) :
    link.read variant ⟨revents, ptr⟩ answers = link := by
  simp only [Link.read]
  rw [read_stage_idle variant ptr answers link.record link.entry idle, if_neg (by simp [idle])]
  simp [Link.record]

theorem read_eq {revents : Events} (readable : revents.epollin = true) (answers : Answers) :
    link.read variant ⟨revents, ptr⟩ answers =
      { link with
        slot := (link.slot.receive answers.recv).1
        toServer := link.toServer.drop (chunkOf (recv recvBufSize answers.recv)).length
        history := link.history ++
          [.serverRecv (variant.recvCode (link.slot.receive answers.recv).2)]
        shouldClose :=
          (readStage variant ptr revents answers link.record link.entry).client.shouldClose
        entry := (readStage variant ptr revents answers link.record link.entry).entry } := by
  have spec := read_stage_spec variant ptr answers link.record link.entry readable
  simp only [Link.read]
  rw [spec.events, if_pos readable]
  simp only [received_append, received_recv_events, readStage, if_pos readable, handleRecv]
  simp [ConnEvent.receivedBytes, Link.record]

theorem read_keeps (known : Known variant) (sound : Sound requests id ptr link)
    {revents : Events} {answers : Answers}
    (honest : Honest requests link (.event revents answers)) :
    Sound requests id ptr (link.read variant ⟨revents, ptr⟩ answers) := by
  obtain ⟨_, hangup, delivers, _, modified, _⟩ := honest
  by_cases readable : revents.epollin = true
  · obtain ⟨stage, outcome⟩ := receive_stage sound.base sound.serving (delivers readable)
    obtain ⟨view, exit, fd⟩ := EchoClient.Client.receive_view link.slot answers.recv
    have spec := read_stage_spec variant ptr answers link.record link.entry readable
    have code : link.clientFd ≠ -1 → variant.recvCode (link.slot.receive answers.recv).2 = 0 := by
      intro isOpen
      apply known_code known
      rcases outcome with drained | again | ⟨closed, _⟩
      · exact Or.inl drained
      · exact Or.inr again
      · exact absurd closed isOpen
    have proper : Proper (link.clientFd ≠ -1)
        (.serverRecv (variant.recvCode (link.slot.receive answers.recv).2)) := by
      intro isOpen
      rw [code isOpen]
      decide
    have room : (link.slot.receive answers.recv).2 ≠ .sendBufFull := by
      rcases outcome with same | same | ⟨_, same⟩
      · simp [same]
      · simp [same]
      · simp [same]
    rw [read_eq readable]
    constructor
    case base =>
      exact StressEchoStage.sound_of_server sound.base rfl rfl rfl proper (stage_history stage _)
    case serving =>
      dsimp only
      rw [fd]
      exact sound.serving
    case unmarked =>
      intro isOpen
      have quiet : revents.epollrdhup = false := by
        cases hung : revents.epollrdhup with
        | false => rfl
        | true => exact absurd (hangup hung) isOpen
      have zero := code isOpen
      rw [exit] at zero
      dsimp only
      rw [spec.marked, quiet]
      show (link.shouldClose || decide (variant.recvCode
        (link.slot.view.receive (recv recvBufSize answers.recv)).2 = -1) || _) = false
      rw [zero, sound.unmarked isOpen]
      rfl
    case armed =>
      dsimp only
      rw [spec.entry, modified, view]
      rw [exit] at room
      exact receive_mask sound.armed room
  · rw [read_idle (Bool.not_eq_true _ ▸ readable)]
    exact sound

def Link.write (event : EpollEvent) (answers : Answers) (link : Link) : Link :=
  let written := writeStage event.ptr event.events answers link.record link.entry
  { link with
    slot := if Closing written then written.client.toClient.reset else written.client.toClient
    toClient := link.toClient ++ sent written.events
    history := link.history ++ if event.events.epollout then [.serverSend written.ret] else []
    shouldClose := written.client.shouldClose
    entry := if Closing written then none else written.entry }

theorem read_stage_sent (variant : Variant) (revents : Events) (answers : Answers)
    (client : EpollServer.Client) (entry : Option EpollEvent) :
    sent (readStage variant ptr revents answers client entry).events = [] := by
  by_cases readable : revents.epollin = true
  · rw [(read_stage_spec variant ptr answers client entry readable).events]
    simp [ConnEvent.sentBytes]
  · rw [read_stage_idle variant ptr answers client entry (Bool.not_eq_true _ ▸ readable)]
    rfl

theorem write_stage_received (revents : Events) (answers : Answers)
    (client : EpollServer.Client) (entry : Option EpollEvent) :
    received (writeStage ptr revents answers client entry).events = [] := by
  by_cases writable : revents.epollout = true
  · rw [(write_stage_spec ptr answers client entry writable).events]
    exact received_send_events _ _ _
  · rw [write_stage_idle ptr answers client entry (Bool.not_eq_true _ ▸ writable)]
    rfl

theorem serve_eq (revents : Events) (answers : Answers) :
    link.serve variant ⟨revents, ptr⟩ answers =
      (link.read variant ⟨revents, ptr⟩ answers).write ⟨revents, ptr⟩ answers := by
  simp only [Link.serve, Link.read, Link.write, Link.returns, serveEvent, Link.record,
    received_append, sent_append, read_stage_sent, write_stage_received, List.append_nil,
    List.nil_append, List.append_assoc]
  rfl

theorem write_idle {revents : Events} (idle : revents.epollout = false) (answers : Answers) :
    link.write ⟨revents, ptr⟩ answers = link := by
  have stays : ¬ Closing (writeStage ptr revents answers link.record link.entry) :=
    not_closing_idle idle
  simp only [Link.write]
  rw [if_neg stays, if_neg stays, if_neg (by simp [idle]),
    write_stage_idle ptr answers link.record link.entry idle]
  simp [Link.record]

/-- A client is closed by the server only when it is marked and something was queued for it. -/
theorem write_not_closing (sound : Sound requests id ptr link) {revents : Events}
    {answers : Answers} (writable : revents.epollout = true) (accepts : Accepts answers.send) :
    ¬ Closing (writeStage ptr revents answers link.record link.entry) := by
  have spec := write_stage_spec ptr answers link.record link.entry writable
  obtain ⟨view, exit, _⟩ := EchoClient.Client.flush_view link.slot answers.send
  have fine := (flush_stage sound.base sound.serving accepts).2
  rw [exit] at fine
  rintro (failed | ⟨flushed, marked⟩)
  · rw [spec.ret] at failed
    exact fine failed
  · rw [spec.marked] at marked
    have closed : link.clientFd = -1 := by
      by_contra isOpen
      have unmarked : link.record.shouldClose = false := sound.unmarked isOpen
      rw [unmarked] at marked
      cases marked
    have quiet := (quiet_of_closed sound.base closed).2.slot
    rw [spec.ret] at flushed
    have idle : link.record.view.queued = [] := by
      show link.slot.view.queued = []
      rw [quiet]
      rfl
    rw [LineEcho.flush_idle idle] at flushed
    cases flushed

theorem write_eq (sound : Sound requests id ptr link) {revents : Events} {answers : Answers}
    (writable : revents.epollout = true) (accepts : Accepts answers.send) :
    link.write ⟨revents, ptr⟩ answers =
      { link with
        slot := (link.slot.flush answers.send).1
        toClient := link.toClient ++
          sent (sendEvents sendCode link.slot.view (send link.slot.queued.length answers.send))
        history := link.history ++ [.serverSend (sendCode (link.slot.flush answers.send).2)]
        entry := (writeStage ptr revents answers link.record link.entry).entry } := by
  have spec := write_stage_spec ptr answers link.record link.entry writable
  have stays := write_not_closing sound writable accepts
  simp only [Link.write]
  rw [if_neg stays, if_neg stays, if_pos writable, spec.events]
  simp only [writeStage, if_pos writable, handleSend, Link.record]

theorem write_keeps (sound : Sound requests id ptr link) {revents : Events} {answers : Answers}
    (accepts : revents.epollout = true → Accepts answers.send)
    (modified : answers.ctlModSend = true) :
    Sound requests id ptr (link.write ⟨revents, ptr⟩ answers) := by
  by_cases writable : revents.epollout = true
  · obtain ⟨stage, fine⟩ := flush_stage sound.base sound.serving (accepts writable)
    obtain ⟨view, exit, fd⟩ := EchoClient.Client.flush_view link.slot answers.send
    have spec := write_stage_spec ptr answers link.record link.entry writable
    rw [write_eq sound writable (accepts writable)]
    constructor
    case base =>
      exact StressEchoStage.sound_of_server sound.base rfl rfl rfl (fun _ => fine)
        (stage_history stage _)
    case serving =>
      dsimp only
      rw [fd]
      exact sound.serving
    case unmarked => exact sound.unmarked
    case armed =>
      dsimp only
      rw [spec.entry, modified, view]
      exact flush_mask sound.armed
  · rw [write_idle (Bool.not_eq_true _ ▸ writable)]
    exact sound

/-- The client touches nothing of the server's, and does not open again. -/
theorem client_frame {base after : StressEcho.Link} {move : StressEcho.Move}
    (sound : StressEchoStage.Sound requests id base) (own : ofServer move = false)
    (result : StressEcho.Link.advance requests base move = some after) :
    after.slot = base.slot ∧ (base.clientFd = -1 → after.clientFd = -1) := by
  have settled : base.clientFd = -1 → base.client.position = .polling := fun closed =>
    (quiet_of_closed sound closed).2.position
  cases move with
  | serverRecv ready => cases own
  | serverSend room => cases own
  | poll setUpNs startNs revents soError =>
      simp only [StressEcho.Link.advance] at result
      split at result
      · cases result
        refine ⟨rfl, fun closed => ?_⟩
        rw [StressEcho.Link.clientFd] at closed ⊢
        rw [StressEchoCompletion.poll_closed closed]
        exact closed
      · cases result
  | clientSend startNs room =>
      simp only [StressEcho.Link.advance] at result
      split at result
      · rename_i sending
        cases result
        refine ⟨rfl, fun closed => ?_⟩
        rw [settled closed] at sending
        cases sending
      · cases result
  | clientRecv doneNs startNs ready =>
      simp only [StressEcho.Link.advance] at result
      split at result
      · rename_i receiving
        cases result
        refine ⟨rfl, fun closed => ?_⟩
        rw [settled closed] at receiving
        cases receiving
      · cases result

theorem client_keeps {move : StressEcho.Move} {after : Link} (positive : 0 < requests.toNat)
    (sound : Sound requests id ptr link) (honest : StressEcho.Honest requests link.toLink move)
    (result : link.advance variant ptr requests (.client move) = some after) :
    Sound requests id ptr after := by
  unfold Link.advance at result
  dsimp only at result
  split_ifs at result with own
  rw [Bool.not_eq_true] at own
  obtain ⟨base, moved, rfl⟩ := Option.map_eq_some_iff.mp result
  obtain ⟨slot, stillClosed⟩ := client_frame sound.base own moved
  constructor
  case base =>
    cases move with
    | serverRecv ready => cases own
    | serverSend room => cases own
    | poll setUpNs startNs revents soError =>
        exact StressEchoCompletion.poll_keeps positive sound.base honest moved
    | clientSend startNs room =>
        exact StressEchoCompletion.client_send_keeps sound.base honest moved
    | clientRecv doneNs startNs ready =>
        exact StressEchoCompletion.client_recv_keeps sound.base honest moved
  case serving =>
    dsimp only
    rw [slot]
    exact sound.serving
  case unmarked => exact fun isOpen => sound.unmarked fun closed => isOpen (stillClosed closed)
  case armed =>
    dsimp only
    rw [slot]
    exact sound.armed

theorem reachable_sound (known : Known variant) (positive : 0 < requests.toNat)
    (reached : Reachable (system variant ptr requests id) link) :
    Sound requests id ptr link := by
  apply reachable_invariant _ _ reached
  · intro link started
    have base : StressEchoStage.Sound requests id link.toLink :=
      StressEchoCompletion.opened_sound started.opened
    refine ⟨base, started.opened.slot.1, fun _ => started.unmarked, ?_⟩
    rw [started.entry]
    have idle : link.slot.view.queued = [] := by
      have bound := link.slot.offsetBound
      rw [started.opened.slot.2.2, Nat.le_zero] at bound
      exact EchoClient.Client.queued_eq_nil.mpr (started.opened.slot.2.2.trans bound.symm)
    rw [mask_idle idle]
  · rintro link (move | ⟨revents, answers⟩) after _ sound ⟨honest, result⟩
    · exact client_keeps positive sound honest result
    · simp only [Link.advance] at result
      split_ifs at result
      cases result
      rw [serve_eq]
      exact write_keeps (read_keeps known sound honest) honest.2.2.2.1 honest.2.2.2.2.2

end LinuxSystemPrograms.StressEpoll
