import LinuxSystemPrograms.StressEchoStage

/-!
# Every request of a stress client comes back

The moves of the client keep the joint invariant: each has one lemma about the piece of
code it runs, and the request's bytes move as the lemmas about `Exchange` say. When the
last newline is back, the next request begins with every buffer and both channels empty.
-/

namespace LinuxSystemPrograms.StressEchoCompletion

open LinuxSystemPrograms.ConnectionAccount
open LinuxSystemPrograms.EchoClient (LineEcho)
open LinuxSystemPrograms.EchoExchange
open LinuxSystemPrograms.Framing
open LinuxSystemPrograms.Sockets
open LinuxSystemPrograms.StressClient
open LinuxSystemPrograms.StressClientHandlers
open LinuxSystemPrograms.StressClientSituations
open LinuxSystemPrograms.StressEcho
open LinuxSystemPrograms.StressEchoStage
open LinuxSystemPrograms.StressEchoTurns
open LinuxSystemPrograms.Transition

set_option autoImplicit false

theorem after_recv_keep {seat : Seat} (notDone : seat.client.state ≠ .done)
    (requests startNs : UInt64) :
    Process.afterRecv requests startNs seat.keep = ⟨seat, .polling⟩ := by
  unfold Process.afterRecv
  simp only [Seat.keep]
  rw [Seat.doneStage, if_neg notDone]
  rfl

theorem after_send_keep {seat : Seat} {revents : PollEvents} (noInput : revents.pollin = false)
    (notDone : seat.client.state ≠ .done) (requests startNs : UInt64) :
    Process.afterSend requests startNs revents seat.keep = ⟨seat, .polling⟩ := by
  rw [Process.afterSend, if_neg (by simp [noInput]), after_recv_keep notDone]

/-- What a prepared client looks like: a request to send and an empty buffer. -/
theorem prepare_ready (seat : Seat) (startNs : UInt64) :
    ∃ record, (seat.prepare startNs).seat =
        { seat with client := record, nextSequence := seat.nextSequence + 1 } ∧
      Prepared seat.client seat.nextSequence record ∧ record.response = [] := by
  obtain ⟨record, result, prepared⟩ :=
    prepare_request_ok seat.client seat.nextSequence startNs
  refine ⟨record, ?_, prepared, ?_⟩
  · unfold Seat.prepare
    rw [result]
    rfl
  · apply List.eq_nil_of_length_eq_zero
    rw [response_length, prepared.recvLen]

theorem sequence_successor {sequence requests : UInt64}
    (more : sequence.toNat + 1 ≤ requests.toNat) :
    (sequence + 1).toNat = sequence.toNat + 1 := by
  have upper := UInt64.toNat_lt requests
  rw [UInt64.toNat_add, UInt64.toNat_one]
  omega

/-- The next request begins when nothing of the last one is left anywhere. -/
theorem begin_request {requests : UInt64} {id : Int32} {link : Link} {seat : Seat}
    (startNs : UInt64) (client : link.client = ⟨(seat.prepare startNs).seat, .polling⟩)
    (isOpen : seat.client.fd ≠ -1) (sameId : seat.client.id = id)
    (next : seat.nextSequence = seat.client.requestCompleted)
    (more : seat.nextSequence.toNat < requests.toNat) (toServer : link.toServer = [])
    (toClient : link.toClient = []) (slotOpen : link.slot.clientFd ≠ -1)
    (view : link.slot.view = LineEcho.empty) :
    Busy requests id link ∧
      link.client.seat.client.requestCompleted = seat.client.requestCompleted := by
  obtain ⟨record, seatEq, prepared, unread⟩ := prepare_ready seat startNs
  have successor := sequence_successor more
  rw [seatEq] at client
  constructor
  · exact
      { isOpen := by
          rw [Link.clientFd, client, prepared.fd]
          exact isOpen
        sameId := by rw [client, prepared.id, sameId]
        inFlight := by
          rw [client]
          constructor
          · rw [successor, prepared.completed, next]
          · rw [successor]
            exact more
        request := by rw [client, prepared.request, prepared.completed, sameId, next]
        slot := slotOpen
        exchange := by
          rw [client, toServer, toClient, view, prepared.offset, unread]
          exact exchange_begin _
        doing := by
          rw [client]
          exact .writing prepared.state unread (Or.inl rfl) }
  · rw [client, prepared.completed]

/-- `poll` sends a busy client to the handler for its state, or back to the loop's head. -/
theorem poll_busy {requests : UInt64} {revents : PollEvents} {seat : Seat} (setUpNs startNs : UInt64)
    (soError : Except Errno (Option Errno)) (isOpen : seat.client.fd ≠ -1)
    (doing : Doing seat.client .polling) (within : revents.Within (requested seat.client))
    (noFatal : (revents.pollerr || revents.pollhup || revents.pollnval) = false) :
    ∃ position, Process.poll requests setUpNs startNs revents soError seat = ⟨seat, position⟩ ∧
      Doing seat.client position := by
  obtain ⟨notDone, notConnecting⟩ := doing.state
  unfold Process.poll
  rw [set_up_keep (Or.inr notDone), Seat.keep]
  dsimp only
  rw [if_neg isOpen, if_neg notConnecting, noFatal]
  split_ifs with quiet fatal sends
  · exact ⟨_, rfl, doing⟩
  · exact absurd fatal (by decide)
  · refine ⟨_, rfl, ?_⟩
    cases doing with
    | writing state unread next =>
        exact .writing state unread (Or.inr ⟨revents, rfl, no_pollin within (by simp [state])⟩)
    | reading state sent unfinished next => simp [state] at sends
  · unfold Process.afterSend
    split_ifs with reads
    · refine ⟨_, rfl, ?_⟩
      cases doing with
      | writing state unread next =>
          have reading : seat.client.state = .reading := reads.2.1
          rw [state] at reading
          cases reading
      | reading state sent unfinished next =>
          exact .reading state sent unfinished (Or.inr rfl)
    · exact ⟨_, after_recv_keep notDone _ _, doing⟩

/-- A move of the client that completes no request. -/
theorem sound_of_client {requests : UInt64} {id : Int32} {link after : Link}
    {reports : List Report} (sound : Sound requests id link) (busy : Busy requests id after)
    (wasOpen : link.clientFd ≠ -1) (history : after.history = link.history ++ reports)
    (proper : ∀ report ∈ reports, Proper (after.clientFd ≠ -1) report)
    (silent : completions reports = [])
    (completed : after.client.seat.client.requestCompleted =
      link.client.seat.client.requestCompleted) : Sound requests id after where
  proper := by
    rw [history]
    exact proper_append sound.proper (fun _ => wasOpen) proper
  ordered := by
    rw [history, completions_append, silent, List.append_nil, sound.ordered, completed]
  stage := .busy busy

/-- A handler that goes on, or returns 0 without a completed request. -/
theorem reports_of_return {reports : List Report}
    (returned : reports = [] ∨ reports = [.clientSend .ok] ∨ reports = [.clientRecv .ok])
    (clientOpen : Prop) :
    (∀ report ∈ reports, Proper clientOpen report) ∧ completions reports = [] := by
  rcases returned with rfl | rfl | rfl
  · simp [completions]
  · simp [Proper, completions]
  · simp [Proper, completions]

/-- Only a busy client is away from the call of `poll`. -/
theorem busy_of_not_polling {requests : UInt64} {id : Int32} {link : Link}
    (sound : Sound requests id link) (away : link.client.position ≠ .polling) :
    Busy requests id link := by
  cases sound.stage with
  | fresh isOpen sameId connecting next completed slot quiet => exact absurd quiet.position away
  | busy busy => exact busy
  | finished closed completed quiet => exact absurd quiet.position away

structure SameRequest (before after : Client) : Prop where
  fd : after.fd = before.fd
  id : after.id = before.id
  completed : after.requestCompleted = before.requestCompleted
  request : after.request = before.request

theorem same_request_refl (client : Client) : SameRequest client client := ⟨rfl, rfl, rfl, rfl⟩

theorem SameRequest.trans {before middle after : Client} (first : SameRequest before middle)
    (second : SameRequest middle after) : SameRequest before after where
  fd := second.fd.trans first.fd
  id := second.id.trans first.id
  completed := second.completed.trans first.completed
  request := second.request.trans first.request

theorem resume_busy {requests : UInt64} {id : Int32} {link after : Link}
    (busy : Busy requests id link)
    (same : SameRequest link.client.seat.client after.client.seat.client)
    (next : after.client.seat.nextSequence = link.client.seat.nextSequence)
    (slot : after.slot = link.slot)
    (exchange : Exchange link.client.seat.client.request after.client.seat.client.sendOffset
      after.client.seat.client.response after.toServer after.toClient link.slot.view)
    (doing : Doing after.client.seat.client after.client.position) : Busy requests id after where
  isOpen := by
    rw [Link.clientFd, same.fd]
    exact busy.isOpen
  sameId := by rw [same.id, busy.sameId]
  inFlight := by
    constructor
    · rw [next, same.completed, busy.inFlight.next]
    · rw [next]
      exact busy.inFlight.bound
  request := by rw [same.request, same.completed, busy.request]
  slot := by
    rw [slot]
    exact busy.slot
  exchange := by
    rw [same.request, slot]
    exact exchange
  doing := doing

/-- `poll` on a connection that is still being made. -/
theorem poll_connect_cases {seat : Seat} (requests setUpNs startNs : UInt64)
    (revents : PollEvents) (soError : Except Errno (Option Errno)) (isOpen : seat.client.fd ≠ -1)
    (connecting : seat.client.state = .connecting) :
    Process.poll requests setUpNs startNs revents soError seat = ⟨seat, .polling⟩ ∨
      verifyConnection soError = .ok ∧
        Process.poll requests setUpNs startNs revents soError seat =
          ⟨(Seat.prepare { seat with client := { seat.client with state := .writing } }
            startNs).seat, .polling⟩ ∨
      verifyConnection soError ≠ .ok ∧
        Process.poll requests setUpNs startNs revents soError seat =
          ⟨(Seat.fail seat).seat, .polling⟩ := by
  unfold Process.poll
  rw [set_up_keep (Or.inr (by simp [connecting])), Seat.keep]
  dsimp only
  rw [if_neg isOpen, if_pos connecting]
  split_ifs with quiet ready
  · exact Or.inl rfl
  · unfold handleConnect
    cases verifyConnection soError with
    | ok => exact Or.inr (Or.inl ⟨rfl, rfl⟩)
    | fail reason => exact Or.inr (Or.inr ⟨Exit.noConfusion, rfl⟩)
  · exact Or.inl rfl

theorem poll_connecting {requests : UInt64} {revents : PollEvents} {seat : Seat}
    (setUpNs startNs : UInt64) (isOpen : seat.client.fd ≠ -1)
    (connecting : seat.client.state = .connecting) :
    Process.poll requests setUpNs startNs revents (.ok none) seat = ⟨seat, .polling⟩ ∨
      Process.poll requests setUpNs startNs revents (.ok none) seat =
        ⟨(Seat.prepare { seat with client := { seat.client with state := .writing } }
          startNs).seat, .polling⟩ := by
  rcases poll_connect_cases requests setUpNs startNs revents (.ok none) isOpen connecting with
    same | ⟨_, prepares⟩ | ⟨refused, _⟩
  · exact Or.inl same
  · exact Or.inr prepares
  · exact absurd rfl refused

theorem poll_closed {seat : Seat} (closed : seat.client.fd = -1)
    (requests setUpNs startNs : UInt64) (revents : PollEvents)
    (soError : Except Errno (Option Errno)) :
    Process.poll requests setUpNs startNs revents soError seat = ⟨seat, .polling⟩ := by
  unfold Process.poll
  rw [set_up_keep (Or.inl closed), Seat.keep]
  exact if_pos closed

theorem poll_keeps {requests : UInt64} {id : Int32} {link after : Link}
    {setUpNs startNs : UInt64} {revents : PollEvents} {soError : Except Errno (Option Errno)}
    (positive : 0 < requests.toNat) (sound : Sound requests id link)
    (honest : Honest requests link (.poll setUpNs startNs revents soError))
    (result : link.advance requests (.poll setUpNs startNs revents soError) = some after) :
    Sound requests id after := by
  obtain ⟨within, noFatal, rfl⟩ := honest
  unfold Link.advance at result
  dsimp only at result
  split at result
  · rename_i polling
    rw [Option.some.injEq] at result
    have unchanged : link.client = ⟨link.client.seat, .polling⟩ := by rw [← polling]
    cases sound.stage with
    | fresh isOpen sameId connecting next completed slot quiet =>
        rcases poll_connecting setUpNs startNs isOpen connecting with same | prepares
        · rw [same, ← unchanged] at result
          rw [← result]
          exact sound
        · rw [prepares] at result
          have client := congrArg Link.client result.symm
          obtain ⟨busy, sameCount⟩ := begin_request startNs client isOpen sameId
            (next.trans completed.symm) (by rw [next]; exact positive)
            (by rw [← result, quiet.toServer]) (by rw [← result, quiet.toClient])
            (by rw [← result]; exact slot) (by rw [← result, quiet.slot])
          have history : after.history = link.history ++ [] := by rw [← result, List.append_nil]
          exact sound_of_client sound busy isOpen history (by simp) rfl sameCount
    | busy busy =>
        have doing := busy.doing
        rw [polling] at doing
        rw [set_up_keep (Or.inr doing.state.1)] at within
        obtain ⟨position, polled, stillDoing⟩ :=
          poll_busy setUpNs startNs (.ok none) busy.isOpen doing within noFatal
        rw [polled] at result
        subst result
        have still : Busy requests id { link with client := ⟨link.client.seat, position⟩ } :=
          resume_busy busy (same_request_refl _) rfl rfl busy.exchange stillDoing
        exact sound_of_client sound still busy.isOpen (List.append_nil _).symm (by simp) rfl rfl
    | finished closed completed quiet =>
        rw [poll_closed closed, ← unchanged] at result
        rw [← result]
        exact sound
  · cases result

structure SendsOn (seat : Seat) (piece : Piece) : Prop where
  same : SameRequest seat.client piece.process.seat.client
  next : piece.process.seat.nextSequence = seat.nextSequence
  response : piece.process.seat.client.response = seat.client.response
  bytes : ∃ count, seat.client.sendOffset + count ≤ seat.client.sendLen ∧
    piece.process.seat.client.sendOffset = seat.client.sendOffset + count ∧
    piece.bytes = (seat.client.request.drop seat.client.sendOffset).take count
  doing : Doing piece.process.seat.client piece.process.position
  reports : piece.reports = [] ∨ piece.reports = [.clientSend .ok]

theorem send_piece_spec {requests : UInt64} {revents : PollEvents} {seat : Seat}
    {room : SendResult} (startNs : UInt64) (accepts : Accepts room)
    (writing : seat.client.state = .writing) (unread : seat.client.response = [])
    (noInput : revents.pollin = false) :
    SendsOn seat (Process.sendPiece requests startNs revents seat room) := by
  have notDone : seat.client.state ≠ .done := by simp [writing]
  have stays : seat.client.sendOffset + 0 ≤ seat.client.sendLen := seat.client.offsetBound
  unfold Process.sendPiece
  split_ifs with pending
  · dsimp only
    rcases send_turn_honest seat.stats accepts pending with
      ⟨count, within, bytes, client, exit⟩ | ⟨bytes, client, exit | exit⟩
    · rw [exit, client, bytes]
      exact
        { same := ⟨rfl, rfl, rfl, rfl⟩
          next := rfl
          response := rfl
          bytes := ⟨count, by omega, rfl, by rw [unsent_eq]⟩
          doing := .writing writing unread (Or.inr ⟨revents, rfl, noInput⟩)
          reports := Or.inl rfl }
    · rw [exit, client, bytes]
      exact
        { same := same_request_refl _
          next := rfl
          response := rfl
          bytes := ⟨0, stays, rfl, rfl⟩
          doing := .writing writing unread (Or.inr ⟨revents, rfl, noInput⟩)
          reports := Or.inl rfl }
    · rw [exit, client, bytes]
      dsimp only
      rw [after_handler_ok rfl]
      dsimp only
      rw [after_send_keep noInput (by exact notDone)]
      exact
        { same := same_request_refl _
          next := rfl
          response := rfl
          bytes := ⟨0, stays, rfl, rfl⟩
          doing := .writing writing unread (Or.inl rfl)
          reports := Or.inr rfl }
  · have sent : seat.client.sendOffset = seat.client.sendLen := by omega
    rw [after_handler_ok rfl]
    dsimp only
    rw [after_send_keep noInput (by simp)]
    exact
      { same := ⟨rfl, rfl, rfl, rfl⟩
        next := rfl
        response := rfl
        bytes := ⟨0, stays, rfl, rfl⟩
        doing := by
          refine .reading rfl sent ?_ (Or.inl rfl)
          have still : ({ seat.client with state := .reading } : Client).response = [] := unread
          rw [still]
          exact List.not_mem_nil
        reports := Or.inr rfl }

theorem client_send_keeps {requests : UInt64} {id : Int32} {link after : Link}
    {startNs : UInt64} {room : SendResult} (sound : Sound requests id link)
    (accepts : Accepts room)
    (result : link.advance requests (.clientSend startNs room) = some after) :
    Sound requests id after := by
  unfold Link.advance at result
  dsimp only at result
  split at result
  · rename_i revents sending
    rw [Option.some.injEq] at result
    have busy := busy_of_not_polling sound (by simp [sending])
    have doing := busy.doing
    rw [sending] at doing
    obtain ⟨state, unread, noInput⟩ := doing.sending
    have spec : SendsOn link.client.seat
        (Process.sendPiece requests startNs revents link.client.seat room) :=
      send_piece_spec startNs accepts state unread noInput
    obtain ⟨count, within, offset, bytes⟩ := spec.bytes
    rw [← request_length] at within
    have exchange := exchange_client_send busy.exchange within
    rw [← offset, ← bytes, ← spec.response] at exchange
    generalize Process.sendPiece requests startNs revents link.client.seat room = piece
      at result spec exchange
    have still : Busy requests id after := by
      rw [← result]
      exact resume_busy busy spec.same spec.next rfl exchange spec.doing
    have history : after.history = link.history ++ piece.reports := by rw [← result]
    have completed : after.client.seat.client.requestCompleted =
        link.client.seat.client.requestCompleted := by
      rw [← result]
      exact spec.same.completed
    obtain ⟨proper, silent⟩ := reports_of_return (spec.reports.imp_right Or.inl) _
    exact sound_of_client sound still busy.isOpen history proper silent completed
  · cases result

theorem response_space {client : Client} {offset : Nat} {toServer toClient : List Byte}
    {echo : LineEcho} (short : client.request.length < bufSize)
    (exchange : Exchange client.request offset client.response toServer toClient echo) :
    client.recvLen < bufSize := by
  have bound := exchange_response_le exchange
  rw [response_length] at bound
  exact Nat.lt_of_le_of_lt bound short

/-- One run through the loop of `handle_recv` for a client that is reading: the newline is
still missing, or the request is completed. -/
inductive ReadsOn (requests startNs : UInt64) (seat : Seat) (toServer toClient : List Byte)
    (echo : LineEcho) (piece : Piece) : Prop where
  | waits (same : SameRequest seat.client piece.process.seat.client)
      (next : piece.process.seat.nextSequence = seat.nextSequence)
      (exchange : Exchange seat.client.request piece.process.seat.client.sendOffset
        piece.process.seat.client.response toServer (toClient.drop piece.bytes.length) echo)
      (doing : Doing piece.process.seat.client piece.process.position)
      (reports : piece.reports = [] ∨ piece.reports = [.clientRecv .ok])
  | completes (turn : Turn) (validated : Validated seat.client turn)
      (noWire : toServer = []) (noWireBack : toClient.drop piece.bytes.length = [])
      (idle : echo = LineEcho.empty)
      (process : piece.process = Process.afterRecv requests startNs
        (Seat.keep { seat with client := turn.client, stats := turn.stats }))
      (reports : piece.reports =
        [.completed seat.client.request seat.client.request, .clientRecv .ok])

/-- A chunk of the response: the newline is still missing, or the request is completed. -/
theorem recv_piece_chunk {requests : UInt64} {seat : Seat} {toServer rest chunk : List Byte}
    {echo : LineEcho} {ready : RecvResult} (doneNs startNs : UInt64)
    (frame : Frame newline seat.client.request) (space : seat.client.recvLen < bufSize)
    (exchange : Exchange seat.client.request seat.client.sendOffset seat.client.response toServer
      (chunk ++ rest) echo) (nonempty : chunk ≠ [])
    (result : recv (bufSize - seat.client.recvLen) ready = .ok chunk) :
    (∃ fits changed, Process.recvPiece requests doneNs startNs seat ready =
          ⟨⟨{ seat with client := seat.client.append chunk fits, stats := changed }, .receiving⟩,
            chunk, []⟩ ∧
        newline ∉ (seat.client.append chunk fits).response ∧
        Exchange seat.client.request seat.client.sendOffset
          (seat.client.append chunk fits).response toServer rest echo) ∨
      ∃ turn, Validated seat.client turn ∧ toServer = [] ∧ rest = [] ∧ echo = LineEcho.empty ∧
        Process.recvPiece requests doneNs startNs seat ready =
          ⟨Process.afterRecv requests startNs
              (Seat.keep { seat with client := turn.client, stats := turn.stats }), chunk,
            [.completed seat.client.request seat.client.request, .clientRecv .ok]⟩ := by
  obtain ⟨fits, changed, turnEq⟩ := recv_turn_chunk seat.stats doneNs nonempty result
  have appended := append_response seat.client chunk fits
  unfold Process.recvPiece
  rw [if_neg (by omega)]
  dsimp only
  rw [turnEq, result, chunkOf]
  rcases exchange_client_recv frame exchange nonempty with
    ⟨stillMissing, still⟩ | ⟨echoed, noWire, noRest, idle⟩
  · left
    rw [← appended] at stillMissing still
    rw [check_response_waits changed doneNs stillMissing]
    exact ⟨fits, changed, rfl, stillMissing, still⟩
  · right
    have validated : Validated (seat.client.append chunk fits)
        (checkResponse (seat.client.append chunk fits) changed doneNs) :=
      check_response_validates changed doneNs frame (by rw [appended, echoed]; rfl)
    generalize checkResponse (seat.client.append chunk fits) changed doneNs = turn at validated
    rw [validated.exit]
    dsimp only
    rw [after_handler_ok rfl, if_pos validated.state, echoed]
    exact ⟨turn, ⟨validated.exit, validated.state, validated.fd, validated.id,
      validated.completed⟩, noWire, noRest, idle, rfl⟩

theorem recv_piece_spec {requests : UInt64} {seat : Seat} {toServer toClient : List Byte}
    {echo : LineEcho} {closed : Bool} {ready : RecvResult} (doneNs startNs : UInt64)
    (frame : Frame newline seat.client.request) (short : seat.client.request.length < bufSize)
    (exchange : Exchange seat.client.request seat.client.sendOffset seat.client.response toServer
      toClient echo)
    (reading : seat.client.state = .reading) (sent : seat.client.sendOffset = seat.client.sendLen)
    (unfinished : newline ∉ seat.client.response)
    (delivers : Delivers toClient closed [.eagain, .eintr] ready) (serving : closed = false) :
    ReadsOn requests startNs seat toServer toClient echo
      (Process.recvPiece requests doneNs startNs seat ready) := by
  have space := response_space short exchange
  rcases delivers_cases delivers (by omega : 0 < bufSize - seat.client.recvLen) with
    ⟨chunk, rest, nonempty, split, result⟩ | ⟨peerClosed, _, _⟩ | ⟨reason, expected, result⟩
  · subst split
    rcases recv_piece_chunk doneNs startNs frame space exchange nonempty result with
      ⟨fits, changed, piece, stillMissing, still⟩ | ⟨turn, validated, noWire, noRest, idle, piece⟩
    · rw [piece]
      refine .waits ⟨rfl, rfl, rfl, rfl⟩ rfl ?_ (.reading reading sent stillMissing (Or.inr rfl))
        (Or.inl rfl)
      dsimp only
      rw [List.drop_left]
      exact still
    · rw [piece]
      refine .completes turn validated noWire ?_ idle rfl rfl
      rw [List.drop_left, noRest]
  · rw [serving] at peerClosed
    cases peerClosed
  · obtain ⟨client, exit⟩ := recv_turn_error seat.stats doneNs expected result
    have notDone : seat.client.state ≠ .done := by simp [reading]
    unfold Process.recvPiece
    rw [if_neg (by omega)]
    dsimp only
    rw [client, result, chunkOf]
    rcases exit with exit | exit
    · rw [exit]
      exact .waits (same_request_refl _) rfl exchange
        (.reading reading sent unfinished (Or.inr rfl)) (Or.inl rfl)
    · rw [exit]
      dsimp only
      rw [after_handler_ok rfl, if_neg notDone]
      dsimp only
      rw [after_recv_keep (by exact notDone)]
      exact .waits (same_request_refl _) rfl exchange
        (.reading reading sent unfinished (Or.inl rfl)) (Or.inr rfl)

theorem numbered_succ (id : Int32) (count : Nat) :
    numbered id (count + 1) = numbered id count ++
      [(payload id (UInt64.ofNat count), payload id (UInt64.ofNat count))] := by
  rw [numbered, List.range_succ, List.map_append]
  rfl

/-- The request is completed: the next one begins, or it was the last. -/
theorem completes_keeps {requests startNs : UInt64} {id : Int32} {link after : Link} {turn : Turn}
    (sound : Sound requests id link) (busy : Busy requests id link)
    (validated : Validated link.client.seat.client turn)
    (client : after.client = Process.afterRecv requests startNs
      (Seat.keep { link.client.seat with client := turn.client, stats := turn.stats }))
    (slot : after.slot = link.slot) (toServer : after.toServer = []) (toClient : after.toClient = [])
    (idle : link.slot.view = LineEcho.empty)
    (history : after.history = link.history ++
      [.completed link.client.seat.client.request link.client.seat.client.request,
        .clientRecv .ok]) : Sound requests id after := by
  have next := busy.inFlight.next
  have bound := busy.inFlight.bound
  have counted : turn.client.requestCompleted.toNat =
      link.client.seat.client.requestCompleted.toNat + 1 := by
    have upper := UInt64.toNat_lt requests
    rw [validated.completed, UInt64.toNat_add, UInt64.toNat_one]
    omega
  have sameNumber : link.client.seat.nextSequence = turn.client.requestCompleted := by
    apply UInt64.toNat_inj.mp
    omega
  have proper : ∀ report ∈ after.history, Proper (after.clientFd ≠ -1) report := by
    rw [history]
    apply proper_append sound.proper (fun _ => busy.isOpen)
    simp [Proper]
  have ordered : completions after.history = numbered id turn.client.requestCompleted.toNat := by
    rw [history, completions_append, sound.ordered, counted, numbered_succ, UInt64.ofNat_toNat,
      ← busy.request]
    rfl
  unfold Process.afterRecv at client
  simp only [Seat.keep] at client
  rw [Seat.doneStage, if_pos validated.state] at client
  split_ifs at client with more
  · obtain ⟨nowBusy, sameCount⟩ := begin_request startNs client
      (by rw [validated.fd]; exact busy.isOpen) (validated.id.trans busy.sameId) sameNumber
      (UInt64.lt_iff_toNat_lt.mp more) toServer toClient (by rw [slot]; exact busy.slot)
      (by rw [slot, idle])
    exact ⟨proper, by rw [ordered, sameCount], .busy nowBusy⟩
  · have last : turn.client.requestCompleted = requests := by
      have notLess : ¬ link.client.seat.nextSequence.toNat < requests.toNat :=
        fun less => more (UInt64.lt_iff_toNat_lt.mpr less)
      apply UInt64.toNat_inj.mp
      omega
    have completed : after.client.seat.client.requestCompleted = turn.client.requestCompleted := by
      rw [client]
      rfl
    refine ⟨proper, by rw [ordered, completed], .finished ?_ (completed.trans last) ?_⟩
    · rw [Link.clientFd, client]
      rfl
    · exact
        { position := by rw [client]
          toServer := toServer
          toClient := toClient
          slot := by rw [slot, idle] }

theorem client_recv_keeps {requests : UInt64} {id : Int32} {link after : Link}
    {doneNs startNs : UInt64} {ready : RecvResult} (sound : Sound requests id link)
    (delivers : Delivers link.toClient (link.slot.clientFd = -1) [.eagain, .eintr] ready)
    (result : link.advance requests (.clientRecv doneNs startNs ready) = some after) :
    Sound requests id after := by
  unfold Link.advance at result
  dsimp only at result
  split at result
  · rename_i receiving
    rw [Option.some.injEq] at result
    have busy := busy_of_not_polling sound (by simp [receiving])
    have doing := busy.doing
    rw [receiving] at doing
    obtain ⟨state, sent, unfinished⟩ := doing.receiving
    have spec : ReadsOn requests startNs link.client.seat link.toServer link.toClient
        link.slot.view (Process.recvPiece requests doneNs startNs link.client.seat ready) :=
      recv_piece_spec doneNs startNs busy.frame busy.short busy.exchange state sent unfinished
        delivers (decide_eq_false busy.slot)
    generalize Process.recvPiece requests doneNs startNs link.client.seat ready = piece
      at result spec
    have history : after.history = link.history ++ piece.reports := by rw [← result]
    have client : after.client = piece.process := by rw [← result]
    have slot : after.slot = link.slot := by rw [← result]
    have toClient : after.toClient = link.toClient.drop piece.bytes.length := by rw [← result]
    have toServer : after.toServer = link.toServer := by rw [← result]
    cases spec with
    | waits same nextNumber exchange stillDoing reports =>
        rw [← client] at same nextNumber exchange stillDoing
        rw [← toClient, ← toServer] at exchange
        have still : Busy requests id after :=
          resume_busy busy same nextNumber slot exchange stillDoing
        obtain ⟨proper, silent⟩ := reports_of_return (reports.imp_right Or.inr) _
        exact sound_of_client sound still busy.isOpen history proper silent same.completed
    | completes turn validated noWire noWireBack idle process reports =>
        rw [reports] at history
        exact completes_keeps sound busy validated (client.trans process) slot
          (toServer.trans noWire) (toClient.trans noWireBack) idle history
  · cases result

theorem opened_sound {requests : UInt64} {id : Int32} {link : Link} (opened : Opened id link) :
    Sound requests id link := by
  obtain ⟨fd, valid, client⟩ := opened.client
  obtain ⟨slotOpen, used, sendLen⟩ := opened.slot
  have view : link.slot.view = LineEcho.empty := by
    have part : link.slot.part = [] := by
      apply List.eq_nil_of_length_eq_zero
      rw [EchoClient.Client.part_length, used]
    have queued : link.slot.queued = [] := by
      apply List.eq_nil_of_length_eq_zero
      rw [EchoClient.Client.queued_length, sendLen, Nat.zero_sub]
    rw [EchoClient.Client.view, part, queued, sendLen]
    rfl
  refine ⟨?_, ?_, Stage.fresh ?_ ?_ ?_ opened.nextSequence ?_ slotOpen
    ⟨opened.position, opened.toServer, opened.toClient, view⟩⟩
  · rw [opened.history]
    simp
  · rw [opened.history, client]
    rfl
  · rw [Link.clientFd, client]
    exact fd_ne_of_valid valid
  · rw [client]
  · rw [client]
    rfl
  · rw [client]
    rfl

theorem reachable_sound {requests : UInt64} {id : Int32} (positive : 0 < requests.toNat)
    {link : Link} (reached : Reachable (system requests id) link) : Sound requests id link := by
  apply reachable_invariant (fun _ opened => opened_sound opened) _ reached
  intro link move after _ sound step
  obtain ⟨honest, result⟩ := step
  cases move with
  | poll setUpNs startNs revents soError => exact poll_keeps positive sound honest result
  | clientSend startNs room => exact client_send_keeps sound honest result
  | clientRecv doneNs startNs ready => exact client_recv_keeps sound honest result
  | serverRecv ready => exact server_recv_keeps sound honest result
  | serverSend room => exact server_send_keeps sound honest result

/-- No handler fails before the client has closed; the requests are completed in order, each
by an identical response, and when the client has closed, all of them are. -/
theorem every_request_echoed (requests : UInt64) (id : Int32) (positive : 0 < requests.toNat)
    {link : Link} (reached : Reachable (system requests id) link) :
    (∀ report ∈ link.history, Proper (link.clientFd ≠ -1) report) ∧
      completions link.history =
        numbered id link.client.seat.client.requestCompleted.toNat ∧
      (link.clientFd = -1 →
        link.client.seat.client.requestCompleted = requests ∧
          completions link.history = numbered id requests.toNat) := by
  have sound := reachable_sound positive reached
  refine ⟨sound.proper, sound.ordered, ?_⟩
  intro closed
  cases sound.stage with
  | fresh isOpen sameId connecting next completed slot quiet => exact absurd closed isOpen
  | busy busy => exact absurd closed busy.isOpen
  | finished closed completed quiet =>
      refine ⟨completed, ?_⟩
      rw [sound.ordered, completed]

def justOpened : Link where
  client :=
    { seat :=
        { client := { resetClient with fd := 5, id := -7 }
          nextSequence := 0
          stats := statsInit 1 }
      position := .polling }
  slot := { EchoClient.Client.init with clientFd := 4 }
  toServer := []
  toClient := []
  history := []

/-- `bench--7-0` and a newline, cut differently on the four ways it is handed over. -/
def oneRequest : List Move :=
  let pollout : PollEvents := { noEvents with pollout := true }
  let pollin : PollEvents := { noEvents with pollin := true }
  [.poll 0 1 pollout (.ok none), .poll 0 1 pollout (.ok none), .clientSend 1 (.ok 4),
    .serverRecv (.ok [98, 101]), .clientSend 1 (.error .eintr), .clientSend 1 (.ok 99),
    .serverRecv (.error .eagain), .serverRecv (.ok [110, 99, 104, 45, 45, 55, 45, 48, newline]),
    .serverSend (.ok 3), .clientSend 1 (.ok 1), .poll 0 1 pollin (.ok none),
    .clientRecv 2 1 (.ok [98, 101]), .serverSend (.ok 99), .clientRecv 2 1 (.error .eintr),
    .clientRecv 2 1 (.ok [110, 99, 104, 45, 45, 55, 45, 48, newline]), .serverRecv (.ok [])]

theorem every_request_echoed_one : ∃ link, Reachable (StressEcho.system 1 (-7)) link ∧
    link.clientFd = -1 ∧ Report.serverRecv (-1) ∈ link.history ∧
      completions link.history = numbered (-7) 1 := by
  have opened : Opened (-7) justOpened := by
    refine ⟨⟨5, by decide, rfl⟩, rfl, rfl, ⟨by decide, rfl, rfl⟩, rfl, rfl, rfl⟩
  obtain ⟨link, reached, closed, noticed⟩ := exists_reachable_of_run (next_sound 1 (-7)) opened
    oneRequest (fun link => link.clientFd = -1 ∧ Report.serverRecv (-1) ∈ link.history)
    (by decide +kernel)
  have echoed := every_request_echoed 1 (-7) (by decide) reached
  exact ⟨link, reached, closed, noticed, (echoed.2.2 closed).2⟩

end LinuxSystemPrograms.StressEchoCompletion
