import LinuxSystemPrograms.EchoExchange
import LinuxSystemPrograms.StressEchoTurns

/-!
# The joint invariant of a stress client and its server

`Stage` says where the two processes are and where the bytes between them: one request is
under way, and its bytes are where `Exchange` says. The moves of the server keep it; they
reduce to the lemmas about `Exchange`.
-/

namespace LinuxSystemPrograms.StressEchoStage

open LinuxSystemPrograms.ConnectionAccount
open LinuxSystemPrograms.EchoClient (LineEcho recvBufSize sendBufSize)
open LinuxSystemPrograms.EchoExchange
open LinuxSystemPrograms.Framing
open LinuxSystemPrograms.Sockets
open LinuxSystemPrograms.StressClient
open LinuxSystemPrograms.StressClientHandlers
open LinuxSystemPrograms.StressClientSituations
open LinuxSystemPrograms.StressEcho
open LinuxSystemPrograms.StressEchoTurns

set_option autoImplicit false

/-- The requests with their responses, in the order of their completion. -/
def completions (history : List Report) : List (List Byte × List Byte) :=
  history.filterMap fun
    | .completed request response => some (request, response)
    | _ => none

/-- The requests `0, 1, .., count - 1`, each with itself as the response. -/
def numbered (id : Int32) (count : Nat) : List (List Byte × List Byte) :=
  (List.range count).map fun number =>
    (payload id (UInt64.ofNat number), payload id (UInt64.ofNat number))

/-- The client's handlers never fail, and the server's do not before the client has closed. -/
def Proper (clientOpen : Prop) : Report → Prop
  | .serverRecv ret => clientOpen → ret ≠ -1
  | .serverSend ret => clientOpen → ret ≠ -1
  | .clientSend exit => exit = .ok
  | .clientRecv exit => exit = .ok
  | .completed _ _ => True

inductive Doing (client : Client) (position : Position) : Prop where
  | writing (state : client.state = .writing) (unread : client.response = [])
      (next : position = .polling ∨ ∃ revents, position = .sending revents ∧ revents.pollin = false)
  | reading (state : client.state = .reading) (sent : client.sendOffset = client.sendLen)
      (unfinished : newline ∉ client.response)
      (next : position = .polling ∨ position = .receiving)

theorem Doing.state {client : Client} {position : Position} (doing : Doing client position) :
    client.state ≠ .done ∧ client.state ≠ .connecting := by
  cases doing with
  | writing state unread next => simp [state]
  | reading state sent unfinished next => simp [state]

/-- Where `handle_send` runs. -/
theorem Doing.sending {client : Client} {revents : PollEvents}
    (doing : Doing client (.sending revents)) :
    client.state = .writing ∧ client.response = [] ∧ revents.pollin = false := by
  cases doing with
  | reading state sent unfinished next => simp at next
  | writing state unread next =>
      refine ⟨state, unread, ?_⟩
      rcases next with polling | ⟨reported, same, noInput⟩
      · cases polling
      · cases same
        exact noInput

/-- Where `handle_recv` runs. -/
theorem Doing.receiving {client : Client} (doing : Doing client .receiving) :
    client.state = .reading ∧ client.sendOffset = client.sendLen ∧ newline ∉ client.response := by
  cases doing with
  | writing state unread next => simp at next
  | reading state sent unfinished next => exact ⟨state, sent, unfinished⟩

structure Busy (requests : UInt64) (id : Int32) (link : Link) : Prop where
  isOpen : link.clientFd ≠ -1
  sameId : link.client.seat.client.id = id
  inFlight : InFlight requests link.client.seat.client link.client.seat.nextSequence
  request : link.client.seat.client.request = payload id link.client.seat.client.requestCompleted
  slot : link.slot.clientFd ≠ -1
  exchange : Exchange link.client.seat.client.request link.client.seat.client.sendOffset
    link.client.seat.client.response link.toServer link.toClient link.slot.view
  doing : Doing link.client.seat.client link.client.position

structure Quiet (link : Link) : Prop where
  position : link.client.position = .polling
  toServer : link.toServer = []
  toClient : link.toClient = []
  slot : link.slot.view = LineEcho.empty

inductive Stage (requests : UInt64) (id : Int32) (link : Link) : Prop where
  | fresh (isOpen : link.clientFd ≠ -1) (sameId : link.client.seat.client.id = id)
      (connecting : link.client.seat.client.state = .connecting)
      (next : link.client.seat.nextSequence = 0)
      (completed : link.client.seat.client.requestCompleted = 0)
      (slot : link.slot.clientFd ≠ -1) (quiet : Quiet link)
  | busy (busy : Busy requests id link)
  | finished (closed : link.clientFd = -1)
      (completed : link.client.seat.client.requestCompleted = requests) (quiet : Quiet link)

structure Sound (requests : UInt64) (id : Int32) (link : Link) : Prop where
  proper : ∀ report ∈ link.history, Proper (link.clientFd ≠ -1) report
  ordered : completions link.history =
    numbered id link.client.seat.client.requestCompleted.toNat
  stage : Stage requests id link

theorem proper_of_imp {earlier later : Prop} (stillOpen : later → earlier) {report : Report}
    (proper : Proper earlier report) : Proper later report := by
  cases report with
  | serverRecv ret => exact fun isOpen => proper (stillOpen isOpen)
  | serverSend ret => exact fun isOpen => proper (stillOpen isOpen)
  | clientSend exit => exact proper
  | clientRecv exit => exact proper
  | completed request response => trivial

/-- The history grows, and the client does not open again. -/
theorem proper_append {earlier later : Prop} {history reports : List Report}
    (before : ∀ report ∈ history, Proper earlier report) (stillOpen : later → earlier)
    (now : ∀ report ∈ reports, Proper later report) :
    ∀ report ∈ history ++ reports, Proper later report := by
  intro report member
  rcases List.mem_append.mp member with old | new
  · exact proper_of_imp stillOpen (before report old)
  · exact now report new

theorem completions_append (history reports : List Report) :
    completions (history ++ reports) = completions history ++ completions reports :=
  List.filterMap_append

/-- What the server's `handle_recv` and the code behind it do to the link. -/
structure ServerRecv (link : Link) (result : RecvResult) (ret : Int) (after : Link) : Prop where
  client : after.client = link.client
  toClient : after.toClient = link.toClient
  toServer : after.toServer = link.toServer.drop (chunkOf result).length
  history : after.history = link.history ++ [.serverRecv ret]
  kept : ret ≠ -1 → after.slot.clientFd = link.slot.clientFd ∧
    after.slot.view = (link.slot.view.receive result).1
  dropped : ret = -1 → after.slot.view = LineEcho.empty

theorem server_recv_spec {requests : UInt64} {link after : Link} {ready : RecvResult}
    (result : link.advance requests (.serverRecv ready) = some after) :
    link.slot.clientFd ≠ -1 ∧
      ServerRecv link (recv recvBufSize ready)
        (SelectServerV2.recvCode (link.slot.view.receive (recv recvBufSize ready)).2) after := by
  obtain ⟨view, fd, ret, events⟩ := recv_handler_spec SelectServerV2.recvCode link.slot ready
  unfold Link.advance at result
  split_ifs at result with isOpen
  refine ⟨isOpen, ?_⟩
  rw [Option.some.injEq] at result
  subst result
  unfold SelectServerV2.handleRecv
  exact
    { client := rfl
      toClient := rfl
      toServer := by simp only [events, received_recv_events]
      history := by simp only [ret]
      kept := by
        intro open'
        simp only [closeOn, ret, if_neg open', fd, view, and_self]
      dropped := by
        intro closed
        simp only [closeOn, ret, if_pos closed, EchoClient.Client.reset_view] }

structure ServerSend (link : Link) (result : SendResult) (ret : Int) (after : Link) : Prop where
  client : after.client = link.client
  toServer : after.toServer = link.toServer
  toClient : after.toClient =
    link.toClient ++ sent (sendEvents SelectServerV2.sendCode link.slot.view result)
  history : after.history = link.history ++ [.serverSend ret]
  kept : ret ≠ -1 → after.slot.clientFd = link.slot.clientFd ∧
    after.slot.view = (link.slot.view.flush result).1

theorem server_send_spec {requests : UInt64} {link after : Link} {room : SendResult}
    (result : link.advance requests (.serverSend room) = some after) :
    link.slot.clientFd ≠ -1 ∧
      ServerSend link (send link.slot.queued.length room)
        (SelectServerV2.sendCode (link.slot.view.flush (send link.slot.queued.length room)).2)
        after := by
  obtain ⟨view, fd, ret, events⟩ := send_handler_spec SelectServerV2.sendCode link.slot room
  unfold Link.advance at result
  split_ifs at result with isOpen
  refine ⟨isOpen, ?_⟩
  rw [Option.some.injEq] at result
  subst result
  unfold SelectServerV2.handleSend
  exact
    { client := rfl
      toServer := rfl
      toClient := by simp only [events]
      history := by simp only [ret]
      kept := by
        intro open'
        simp only [closeOn, ret, if_neg open', fd, view, and_self] }

/-- A move of the server that has returned something other than -1 in time. -/
theorem sound_of_server {requests : UInt64} {id : Int32} {link after : Link} {report : Report}
    (sound : Sound requests id link) (client : after.client = link.client)
    (history : after.history = link.history ++ [report])
    (silent : completions [report] = []) (proper : Proper (link.clientFd ≠ -1) report)
    (stage : Stage requests id after) : Sound requests id after where
  proper := by
    have sameFd : after.clientFd = link.clientFd := by rw [Link.clientFd, client, Link.clientFd]
    rw [history, sameFd]
    apply proper_append sound.proper (fun isOpen => isOpen)
    intro new member
    rw [List.mem_singleton.mp member]
    exact proper
  ordered := by
    rw [history, completions_append, silent, List.append_nil, client]
    exact sound.ordered
  stage := stage

theorem Busy.frame {requests : UInt64} {id : Int32} {link : Link} (busy : Busy requests id link) :
    Frame newline link.client.seat.client.request := by
  rw [busy.request]
  exact payload_frame _ _

/-- A request fits into `recv_buf`. -/
theorem Busy.short {requests : UInt64} {id : Int32} {link : Link} (busy : Busy requests id link) :
    link.client.seat.client.request.length < bufSize := by
  rw [busy.request]
  exact Nat.lt_of_le_of_lt (payload_length_le _ _) (by decide)

/-- The server's moves change neither the client nor the numbers of the request. -/
theorem Busy.server {requests : UInt64} {id : Int32} {link after : Link}
    (busy : Busy requests id link) (client : after.client = link.client)
    (slot : after.slot.clientFd = link.slot.clientFd)
    (exchange : Exchange link.client.seat.client.request link.client.seat.client.sendOffset
      link.client.seat.client.response after.toServer after.toClient after.slot.view) :
    Busy requests id after where
  isOpen := by
    rw [Link.clientFd, client]
    exact busy.isOpen
  sameId := by rw [client, busy.sameId]
  inFlight := by
    rw [client]
    exact busy.inFlight
  request := by rw [client, busy.request]
  slot := by
    rw [slot]
    exact busy.slot
  exchange := by
    rw [client]
    exact exchange
  doing := by
    rw [client]
    exact busy.doing

/-- The server's moves keep the client where it is. -/
theorem stage_of_server {requests : UInt64} {id : Int32} {link after : Link}
    (stage : Stage requests id link) (client : after.client = link.client)
    (slot : link.clientFd ≠ -1 → after.slot.clientFd = link.slot.clientFd)
    (quiet : Quiet link → Quiet after) (busy : Busy requests id link → Busy requests id after) :
    Stage requests id after := by
  have sameFd : after.clientFd = link.clientFd := by rw [Link.clientFd, client, Link.clientFd]
  cases stage with
  | fresh isOpen sameId connecting next completed slotOpen nothing =>
      apply Stage.fresh
      · rw [sameFd]
        exact isOpen
      · rw [client, sameId]
      · rw [client, connecting]
      · rw [client, next]
      · rw [client, completed]
      · rw [slot isOpen]
        exact slotOpen
      · exact quiet nothing
  | busy underWay => exact .busy (busy underWay)
  | finished closed completed nothing =>
      apply Stage.finished
      · rw [sameFd, closed]
      · rw [client, completed]
      · exact quiet nothing

theorem server_recv_busy {requests : UInt64} {id : Int32} {link after : Link} {ready : RecvResult}
    {ret : Int} (busy : Busy requests id link)
    (delivers : Delivers link.toServer (link.clientFd = -1) [.eagain] ready)
    (retEq : ret = SelectServerV2.recvCode
      (link.slot.view.receive (recv recvBufSize ready)).2)
    (spec : ServerRecv link (recv recvBufSize ready) ret after) :
    ret ≠ -1 ∧ Busy requests id after := by
  have offset : link.client.seat.client.sendOffset ≤ link.client.seat.client.request.length := by
    rw [request_length]
    exact link.client.seat.client.offsetBound
  have short : link.client.seat.client.request.length ≤ sendBufSize := by
    rw [busy.request]
    exact payload_short _ _
  rcases delivers_cases delivers (by decide : 0 < recvBufSize) with
    ⟨chunk, rest, nonempty, split, result⟩ | ⟨closed, _, _⟩ | ⟨reason, expected, result⟩
  · rw [result] at retEq spec
    have exchange := busy.exchange
    rw [split] at exchange
    obtain ⟨taken, drained⟩ := exchange_server_recv busy.frame short offset exchange nonempty
    have fine : ret ≠ -1 := by
      rw [retEq, drained]
      decide
    obtain ⟨fd, view⟩ := spec.kept fine
    refine ⟨fine, busy.server spec.client fd ?_⟩
    rw [view, spec.toClient, spec.toServer, split, chunkOf, List.drop_left]
    exact taken
  · exact absurd (of_decide_eq_true closed) busy.isOpen
  · rw [List.mem_singleton] at expected
    subst expected
    rw [result] at retEq spec
    have fine : ret ≠ -1 := by
      rw [retEq]
      change (0 : Int) ≠ -1
      decide
    obtain ⟨fd, view⟩ := spec.kept fine
    refine ⟨fine, busy.server spec.client fd ?_⟩
    rw [view, spec.toClient, spec.toServer]
    exact busy.exchange

/-- With nothing on its way `handle_recv` can only find out that the client has closed. -/
theorem server_recv_quiet {link after : Link} {ready : RecvResult} {ret : Int}
    (quiet : Quiet link) (delivers : Delivers link.toServer (link.clientFd = -1) [.eagain] ready)
    (retEq : ret = SelectServerV2.recvCode
      (link.slot.view.receive (recv recvBufSize ready)).2)
    (spec : ServerRecv link (recv recvBufSize ready) ret after) :
    Quiet after ∧ (link.clientFd ≠ -1 → ret ≠ -1) := by
  have settled : after.slot.view = LineEcho.empty → Quiet after := fun slot =>
    { position := by rw [spec.client, quiet.position]
      toServer := by rw [spec.toServer, quiet.toServer, List.drop_nil]
      toClient := by rw [spec.toClient, quiet.toClient]
      slot := slot }
  rw [quiet.slot] at retEq
  rcases delivers_cases delivers (by decide : 0 < recvBufSize) with
    ⟨chunk, rest, nonempty, split, result⟩ | ⟨closed, _, result⟩ | ⟨reason, expected, result⟩
  · rw [quiet.toServer] at split
    exact absurd (List.append_eq_nil_iff.mp split.symm).1 nonempty
  · have gone : ret = -1 := by rw [retEq, result]; rfl
    exact ⟨settled (spec.dropped gone), fun isOpen => absurd (of_decide_eq_true closed) isOpen⟩
  · rw [List.mem_singleton] at expected
    subst expected
    have fine : ret ≠ -1 := by
      rw [retEq, result]
      decide
    obtain ⟨_, view⟩ := spec.kept fine
    rw [result, quiet.slot] at view
    exact ⟨settled view, fun _ => fine⟩

theorem server_recv_keeps {requests : UInt64} {id : Int32} {link after : Link}
    {ready : RecvResult} (sound : Sound requests id link)
    (delivers : Delivers link.toServer (link.clientFd = -1) [.eagain] ready)
    (result : link.advance requests (.serverRecv ready) = some after) :
    Sound requests id after := by
  obtain ⟨served, spec⟩ := server_recv_spec result
  have quiet := fun nothing => server_recv_quiet nothing delivers rfl spec
  have busy := fun underWay : Busy requests id link =>
    server_recv_busy underWay delivers rfl spec
  have fine : link.clientFd ≠ -1 → SelectServerV2.recvCode
      (link.slot.view.receive (recv recvBufSize ready)).2 ≠ -1 := by
    cases sound.stage with
    | fresh isOpen sameId connecting next completed slot nothing => exact (quiet nothing).2
    | busy underWay => exact fun _ => (busy underWay).1
    | finished closed completed nothing => exact (quiet nothing).2
  apply sound_of_server sound spec.client spec.history rfl fine
  exact stage_of_server sound.stage spec.client (fun isOpen => (spec.kept (fine isOpen)).1)
    (fun nothing => (quiet nothing).1) (fun underWay => (busy underWay).2)

/-- An answer of `send` that `handle_send` survives. -/
theorem flush_code_fine (echo : LineEcho) {length : Nat} {room : SendResult}
    (accepts : Accepts room) (lengthEq : length = echo.queued.length) :
    SelectServerV2.sendCode (echo.flush (send length room)).2 ≠ -1 := by
  by_cases empty : echo.queued = []
  · simp [LineEcho.flush_idle empty, SelectServerV2.sendCode]
  · have positive : 0 < echo.queued.length := List.length_pos_iff.mpr empty
    cases room with
    | error reason =>
        rcases List.mem_pair.mp accepts with rfl | rfl
        · have answer : send length (.error .eagain) = .error .eagain := rfl
          simp [answer, LineEcho.flush, empty, SelectServerV2.sendCode]
        · have answer : send length (.error .eintr) = .error .eintr := rfl
          simp [answer, LineEcho.flush, empty, SelectServerV2.sendCode]
    | ok free =>
        have some : 0 < free := accepts
        obtain ⟨count, same⟩ : ∃ count, min free length = count + 1 :=
          Nat.exists_eq_succ_of_ne_zero (by omega)
        have answer : send length (.ok free) = .ok (count + 1) := congrArg Except.ok same
        rw [answer]
        simp only [LineEcho.flush, empty, if_false]
        split_ifs <;> simp [SelectServerV2.sendCode]

theorem server_send_keeps {requests : UInt64} {id : Int32} {link after : Link}
    {room : SendResult} (sound : Sound requests id link) (accepts : Accepts room)
    (result : link.advance requests (.serverSend room) = some after) :
    Sound requests id after := by
  obtain ⟨served, spec⟩ := server_send_spec result
  have fine := flush_code_fine link.slot.view accepts
    (rfl : link.slot.queued.length = link.slot.view.queued.length)
  obtain ⟨fd, view⟩ := spec.kept fine
  have settled : Quiet link → Quiet after := by
    intro quiet
    have idle : link.slot.view.queued = [] := by rw [quiet.slot, LineEcho.empty]
    exact
      { position := by rw [spec.client, quiet.position]
        toServer := by rw [spec.toServer, quiet.toServer]
        toClient := by
          rw [spec.toClient, quiet.toClient]
          simp [sendEvents, idle, ConnEvent.sentBytes]
        slot := by
          rw [view, LineEcho.flush_idle idle, quiet.slot] }
  apply sound_of_server sound spec.client spec.history rfl (fun _ => fine)
  apply stage_of_server sound.stage spec.client (fun _ => fd) settled
  intro busy
  apply busy.server spec.client fd
  rw [view, spec.toServer, spec.toClient]
  exact exchange_server_send busy.exchange _ _

end LinuxSystemPrograms.StressEchoStage
