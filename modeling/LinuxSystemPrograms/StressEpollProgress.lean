import LinuxSystemPrograms.StressEpoll

/-!
# What brings a stress client nearer to its last response

`work` weighs each byte by the places it still has to go through, and each request that has
not begun by more than any request can weigh. A move for which the kernel has bytes, room or
something to report lowers it; the others are `Idle`.
-/

namespace LinuxSystemPrograms.StressEpollProgress

open LinuxSystemPrograms.ConnectionAccount
open LinuxSystemPrograms.EchoClient (LineEcho recvBufSize)
open LinuxSystemPrograms.EchoExchange
open LinuxSystemPrograms.EpollServer
open LinuxSystemPrograms.Framing
open LinuxSystemPrograms.Sockets
open LinuxSystemPrograms.StressClient (ClientState PollEvents Seat bufSize noEvents requested
  sendTurn)
open LinuxSystemPrograms.StressClientHandlers (payload_length_le)
open LinuxSystemPrograms.StressClientSituations (after_handler_ok no_pollin no_pollout
  set_up_keep)
open LinuxSystemPrograms.StressEcho (Accepts Delivers Position Process)
open LinuxSystemPrograms.StressEchoCompletion
open LinuxSystemPrograms.StressEchoStage (Busy Doing Proper Quiet Stage completions numbered)
open LinuxSystemPrograms.StressEchoTurns
open LinuxSystemPrograms.StressEpoll
open LinuxSystemPrograms.Transition

set_option autoImplicit false

/-- The kernel has nothing for the process that asks: nothing is ready, a report was spurious,
or the call has to be made again. -/
def Idle (link : Link) : Move → Prop
  | .client (.poll _ _ revents _) => link.clientFd = -1 ∨ revents = noEvents ∨
      (link.client.seat.client.state = .reading ∧ link.toClient = [])
  | .client (.clientSend _ room) =>
      link.client.seat.client.sendOffset < link.client.seat.client.sendLen ∧
        ∃ reason, room = .error reason
  | .client (.clientRecv _ _ ready) => ∃ reason, ready = .error reason
  | .client _ => False
  | .event revents answers =>
      (revents.epollin = true → chunkOf answers.recv = []) ∧
        (revents.epollout = true → ∃ reason, answers.send = .error reason)

def stance (state : ClientState) (position : Position) : Nat :=
  match state, position with
  | .writing, .polling => 4
  | .writing, _ => 3
  | .reading, .polling => 2
  | .reading, _ => 1
  | _, _ => 0

def transit (link : StressEcho.Link) : Nat :=
  5 * link.toServer.length + 4 * link.slot.view.part.length +
    3 * link.slot.view.queued.length + 2 * link.toClient.length

def pending (link : StressEcho.Link) : Nat :=
  let client := link.client.seat.client
  if client.state = .writing ∨ client.state = .reading then
    6 * (client.sendLen - client.sendOffset) + transit link +
      stance client.state link.client.position
  else 0

/-- More than a request can weigh. -/
def span : Nat := 6 * StressClient.bufSize + 5

def work (requests : UInt64) (link : StressEcho.Link) : Nat :=
  (requests.toNat - link.client.seat.nextSequence.toNat) * span + pending link

theorem work_of_pending {requests : UInt64} {base after : StressEcho.Link}
    (next : after.client.seat.nextSequence = base.client.seat.nextSequence)
    (less : pending after < pending base) : work requests after < work requests base := by
  unfold work
  rw [next]
  omega

theorem stance_le (state : ClientState) (position : Position) : stance state position ≤ 4 := by
  cases state <;> cases position <;> simp [stance]

/-- A request that has just begun. -/
theorem pending_begin {link : StressEcho.Link} (toServer : link.toServer = [])
    (toClient : link.toClient = []) (view : link.slot.view = LineEcho.empty) :
    pending link < span := by
  have bound := link.client.seat.client.lenBound
  have least := stance_le link.client.seat.client.state link.client.position
  unfold pending span transit
  rw [toServer, toClient, view]
  simp only [LineEcho.empty, List.length_nil]
  split_ifs
  · omega
  · omega

variable {variant : Variant} {requests : UInt64} {id : Int32} {ptr : Ptr} {link : Link}

/-! ## The server -/

theorem sent_progress {echo : LineEcho} {free : Nat} (code : EchoClient.SendExit → Int)
    (queued : echo.queued ≠ []) (some : 0 < free) :
    sent (sendEvents code echo (send echo.queued.length (.ok free))) ≠ [] := by
  have least : 0 < echo.queued.length := List.length_pos_iff.mpr queued
  have answer : send echo.queued.length (.ok free) = .ok (min free echo.queued.length) := rfl
  simp only [sendEvents, queued, if_false, answer, sent_append, sent_cons, ConnEvent.sentBytes]
  simp [queued]
  omega

theorem write_transit (sound : Sound requests id ptr link) {revents : Events} {answers : Answers}
    (writable : revents.epollout = true) (accepts : Accepts answers.send) :
    transit (link.write ⟨revents, ptr⟩ answers).toLink +
      (sent (sendEvents sendCode link.slot.view
        (send link.slot.queued.length answers.send))).length = transit link.toLink := by
  obtain ⟨view, _, _⟩ := EchoClient.Client.flush_view link.slot answers.send
  obtain ⟨queue, part⟩ := sent_send_events sendCode link.slot.view
    (send link.slot.queued.length answers.send)
  have length := congrArg List.length queue
  rw [write_eq sound writable accepts]
  simp only [transit, view, part, List.length_append] at length ⊢
  omega

theorem receive_empty {echo : LineEcho} {result : RecvResult} (empty : chunkOf result = []) :
    (echo.receive result).1 = echo := by
  rcases receive_cases echo result with ⟨some, _⟩ | ⟨some, _⟩ | ⟨_, after, _⟩
  · exact absurd empty some
  · exact absurd empty some
  · exact after

/-- Where the bytes of a request are says how much they weigh. -/
theorem transit_shape {base : StressEcho.Link} (busy : Busy requests id base) :
    (base.toClient = [] ∧ base.client.seat.client.response = [] ∧
        transit base = 4 * base.client.seat.client.sendOffset + base.toServer.length) ∨
      (base.toServer = [] ∧ base.client.seat.client.sendOffset = base.client.seat.client.sendLen ∧
        transit base + 3 * base.client.seat.client.response.length + base.toClient.length =
          3 * base.client.seat.client.sendLen) := by
  have bound := base.client.seat.client.offsetBound
  have length := request_length base.client.seat.client
  cases busy.exchange with
  | outward unread wireBack idle reset unfinished split =>
      refine Or.inl ⟨wireBack, unread, ?_⟩
      have total := congrArg List.length split
      rw [List.length_append, List.length_take, length, Nat.min_eq_left bound] at total
      rw [transit, wireBack, idle]
      simp only [List.length_nil]
      omega
  | homeward allSent wire taken reset split =>
      refine Or.inr ⟨wire, allSent.trans length, ?_⟩
      have total := congrArg List.length split
      rw [List.length_append, List.length_append, length] at total
      rw [transit, wire, taken]
      simp only [List.length_nil]
      omega

/-- The server cannot end what the client is in the middle of. -/
theorem busy_of_client {base after : StressEcho.Link} (busy : Busy requests id base)
    (stage : Stage requests id after) (client : after.client = base.client) :
    Busy requests id after := by
  cases stage with
  | fresh isOpen sameId connecting next completed slot quiet =>
      rw [client] at connecting
      exact absurd connecting busy.doing.state.2
  | busy still => exact still
  | finished closed completed quiet =>
      rw [StressEcho.Link.clientFd, client] at closed
      exact absurd closed busy.isOpen

theorem read_frame {revents : Events} (readable : revents.epollin = true) (answers : Answers) :
    (link.read variant ⟨revents, ptr⟩ answers).client = link.client ∧
      (link.read variant ⟨revents, ptr⟩ answers).toClient = link.toClient ∧
      (link.read variant ⟨revents, ptr⟩ answers).toServer =
        link.toServer.drop (chunkOf (recv recvBufSize answers.recv)).length ∧
      (link.read variant ⟨revents, ptr⟩ answers).slot.view =
        (link.slot.view.receive (recv recvBufSize answers.recv)).1 := by
  rw [read_eq readable]
  exact ⟨rfl, rfl, rfl, (EchoClient.Client.receive_view link.slot answers.recv).1⟩

theorem read_transit (known : Known variant) (sound : Sound requests id ptr link)
    (busy : Busy requests id link.toLink) {revents : Events} {answers : Answers}
    (honest : Honest requests link (.event revents answers)) (readable : revents.epollin = true) :
    transit (link.read variant ⟨revents, ptr⟩ answers).toLink ≤ transit link.toLink ∧
      (chunkOf answers.recv ≠ [] →
        transit (link.read variant ⟨revents, ptr⟩ answers).toLink < transit link.toLink) := by
  have delivers := honest.2.2.1 readable
  have after : Busy requests id (link.read variant ⟨revents, ptr⟩ answers).toLink :=
    busy_of_client busy (read_keeps known sound honest).base.stage rfl
  obtain ⟨client, toClient, toServer, view⟩ :=
    @read_frame variant ptr link revents readable answers
  have shape := transit_shape busy
  have shapeAfter := transit_shape after
  rw [client, toClient, toServer] at shapeAfter
  rcases delivers_cases delivers (by decide : 0 < recvBufSize) with
    ⟨chunk, rest, nonempty, split, result⟩ | ⟨closed, _, _⟩ | ⟨reason, _, result⟩
  · have some : 0 < chunk.length := List.length_pos_iff.mpr nonempty
    have length := congrArg List.length split
    rw [List.length_append] at length
    have less : transit (link.read variant ⟨revents, ptr⟩ answers).toLink <
        transit link.toLink := by
      rw [result, chunkOf, List.length_drop] at shapeAfter
      rcases shape with ⟨_, _, weight⟩ | ⟨empty, _, _⟩
      · rcases shapeAfter with ⟨_, _, weightAfter⟩ | ⟨_, allSent, weightAfter⟩
        · omega
        · omega
      · rw [empty] at split
        exact absurd (List.append_eq_nil_iff.mp split.symm).1 nonempty
    exact ⟨Nat.le_of_lt less, fun _ => less⟩
  · exact absurd (of_decide_eq_true closed) busy.isOpen
  · have none : chunkOf answers.recv = [] := by
      cases ready : answers.recv with
      | ok bytes =>
          rw [ready] at result
          cases result
      | error reason => rfl
    rw [result] at view toServer
    rw [receive_empty rfl] at view
    rw [chunkOf, List.length_nil, List.drop_zero] at toServer
    have same : transit (link.read variant ⟨revents, ptr⟩ answers).toLink =
        transit link.toLink := by
      rw [transit, transit, view, toServer, toClient]
    exact ⟨Nat.le_of_eq same, fun some => absurd none some⟩

theorem work_of_transit {base after : StressEcho.Link} (busy : Busy requests id base)
    (client : after.client = base.client) (less : transit after < transit base) :
    work requests after < work requests base := by
  have active : base.client.seat.client.state = .writing ∨
      base.client.seat.client.state = .reading := by
    cases busy.doing with
    | writing state unread next => exact Or.inl state
    | reading state sent unfinished next => exact Or.inr state
  apply work_of_pending (by rw [client])
  rw [pending, pending, client, if_pos active, if_pos active]
  omega

/-- With nothing on its way no event has anything for the server. -/
theorem quiet_idle (sound : Sound requests id ptr link) (quiet : Quiet link.toLink)
    {revents : Events} {answers : Answers}
    (honest : Honest requests link (.event revents answers)) :
    Idle link (.event revents answers) := by
  obtain ⟨⟨entry, watched, reports⟩, _, delivers, _, _, _⟩ := honest
  rw [sound.armed, Option.mem_some_iff] at watched
  subst watched
  have idle : link.slot.view.queued = [] := by
    rw [quiet.slot]
    rfl
  rw [mask_idle idle] at reports
  constructor
  · intro readable
    have arrives := delivers readable
    cases ready : answers.recv with
    | error reason => rfl
    | ok bytes =>
        rw [ready, quiet.toServer] at arrives
        exact List.prefix_nil.mp arrives.1
  · intro writable
    have asked := reports.2.1 writable
    cases asked

theorem write_transit_le (sound : Sound requests id ptr link) {revents : Events}
    {answers : Answers} (accepts : revents.epollout = true → Accepts answers.send) :
    transit (link.write ⟨revents, ptr⟩ answers).toLink ≤ transit link.toLink := by
  by_cases writable : revents.epollout = true
  · exact Nat.le_of_add_right_le (Nat.le_of_eq (write_transit sound writable (accepts writable)))
  · rw [write_idle (Bool.not_eq_true _ ▸ writable)]

theorem read_queued {revents : Events} {answers : Answers}
    (pending : link.slot.view.queued ≠ []) :
    (link.read variant ⟨revents, ptr⟩ answers).slot.view.queued ≠ [] := by
  by_cases readable : revents.epollin = true
  · obtain ⟨_, _, _, view⟩ := @read_frame variant ptr link revents readable answers
    rw [view]
    rcases receive_cases link.slot.view (recv recvBufSize answers.recv) with
      ⟨_, _, after, _⟩ | ⟨_, _, after, _⟩ | ⟨_, after, _⟩
    · rw [after]
      exact fun none => pending (List.append_eq_nil_iff.mp none).1
    · rw [after]
      exact pending
    · rw [after]
      exact pending
  · rw [read_idle (Bool.not_eq_true _ ▸ readable)]
    exact pending

/-- An event for which the kernel has bytes or room makes progress. -/
theorem event_lowers (known : Known variant) (sound : Sound requests id ptr link)
    {revents : Events} {answers : Answers} (honest : Honest requests link (.event revents answers))
    (proper : ¬ Idle link (.event revents answers)) :
    work requests (link.serve variant ⟨revents, ptr⟩ answers).toLink <
      work requests link.toLink := by
  have busy : Busy requests id link.toLink := by
    cases sound.base.stage with
    | fresh isOpen sameId connecting next completed slot quiet =>
        exact absurd (quiet_idle sound quiet honest) proper
    | busy busy => exact busy
    | finished closed completed quiet => exact absurd (quiet_idle sound quiet honest) proper
  have middle := read_keeps known sound honest
  have accepts := honest.2.2.2.1
  have reading : transit (link.read variant ⟨revents, ptr⟩ answers).toLink ≤
      transit link.toLink := by
    by_cases readable : revents.epollin = true
    · exact (read_transit known sound busy honest readable).1
    · rw [read_idle (Bool.not_eq_true _ ▸ readable)]
  have writing := write_transit_le middle accepts
  have client : (link.serve variant ⟨revents, ptr⟩ answers).client = link.client := rfl
  apply work_of_transit busy client
  rw [serve_eq]
  rw [Idle, not_and_or] at proper
  rcases proper with arrived | room
  · obtain ⟨readable, some⟩ := Classical.not_imp.mp arrived
    exact Nat.lt_of_le_of_lt writing ((read_transit known sound busy honest readable).2 some)
  · obtain ⟨writable, granted⟩ := Classical.not_imp.mp room
    obtain ⟨⟨entry, watched, reports⟩, _⟩ := honest
    rw [sound.armed, Option.mem_some_iff] at watched
    subst watched
    have pending : link.slot.view.queued ≠ [] := by
      intro idle
      have asked := reports.2.1 writable
      rw [mask_idle idle] at asked
      cases asked
    have queued := @read_queued variant ptr link revents answers pending
    have takes := accepts writable
    have moved := write_transit middle writable takes
    cases answer : answers.send with
    | error reason => exact absurd ⟨reason, answer⟩ granted
    | ok free =>
        rw [answer] at takes moved
        have some := List.length_pos_iff.mpr (sent_progress sendCode queued takes)
        change 0 < (sent (sendEvents sendCode _ (send
          (link.read variant ⟨revents, ptr⟩ answers).slot.queued.length _))).length at some
        omega

/-! ## The client -/

/-- The next request weighs less than what stood for it before it began. -/
theorem work_begin {base after : StressEcho.Link}
    (more : base.client.seat.nextSequence.toNat < requests.toNat)
    (next : after.client.seat.nextSequence = base.client.seat.nextSequence + 1)
    (toServer : after.toServer = []) (toClient : after.toClient = [])
    (view : after.slot.view = LineEcho.empty) : work requests after < work requests base := by
  have begun := pending_begin toServer toClient view
  unfold work
  rw [next, sequence_successor more]
  obtain ⟨rest, left⟩ := Nat.exists_eq_add_of_lt more
  have before : requests.toNat - base.client.seat.nextSequence.toNat = rest + 1 := by omega
  have behind : requests.toNat - (base.client.seat.nextSequence.toNat + 1) = rest := by omega
  rw [before, behind, Nat.succ_mul]
  omega

/-- A report without a failure says that there is something to read or room to write. -/
theorem poll_ready {revents : PollEvents}
    (noFatal : (revents.pollerr || revents.pollhup || revents.pollnval) = false)
    (ready : revents ≠ noEvents) : revents.pollin = true ∨ revents.pollout = true := by
  obtain ⟨pollin, pollout, pollerr, pollhup, pollnval⟩ := revents
  simp only [Bool.or_eq_false_iff] at noFatal
  obtain ⟨⟨rfl, rfl⟩, rfl⟩ := noFatal
  cases pollin with
  | true => exact Or.inl rfl
  | false =>
      cases pollout with
      | true => exact Or.inr rfl
      | false => exact absurd rfl ready

/-- `poll` reports nothing but what was asked for. -/
theorem pollout_of_ready {client : StressClient.Client} {revents : PollEvents}
    (notReading : client.state ≠ .reading) (within : revents.Within (requested client))
    (noFatal : (revents.pollerr || revents.pollhup || revents.pollnval) = false)
    (ready : revents ≠ noEvents) : revents.pollout = true := by
  rcases poll_ready noFatal ready with input | output
  · rw [no_pollin within notReading] at input
    cases input
  · exact output

theorem pollin_of_ready {client : StressClient.Client} {revents : PollEvents}
    (reading : client.state = .reading) (within : revents.Within (requested client))
    (noFatal : (revents.pollerr || revents.pollhup || revents.pollnval) = false)
    (ready : revents ≠ noEvents) : revents.pollin = true := by
  rcases poll_ready noFatal ready with input | output
  · exact input
  · rw [no_pollout within reading] at output
    cases output

theorem poll_writing {seat : Seat} {revents : PollEvents} (isOpen : seat.client.fd ≠ -1)
    (writing : seat.client.state = .writing) (output : revents.pollout = true)
    (noFatal : (revents.pollerr || revents.pollhup || revents.pollnval) = false)
    (requests setUpNs startNs : UInt64) (soError : Except Errno (Option Errno)) :
    Process.poll requests setUpNs startNs revents soError seat = ⟨seat, .sending revents⟩ := by
  have quiet : revents ≠ noEvents := by
    rintro rfl
    cases output
  unfold Process.poll
  rw [set_up_keep (Or.inr (by simp [writing])), Seat.keep]
  simp [isOpen, quiet, writing, noFatal, output]

theorem poll_reading {seat : Seat} {revents : PollEvents} (isOpen : seat.client.fd ≠ -1)
    (reading : seat.client.state = .reading) (input : revents.pollin = true)
    (noFatal : (revents.pollerr || revents.pollhup || revents.pollnval) = false)
    (requests setUpNs startNs : UInt64) (soError : Except Errno (Option Errno)) :
    Process.poll requests setUpNs startNs revents soError seat = ⟨seat, .receiving⟩ := by
  have quiet : revents ≠ noEvents := by
    rintro rfl
    cases input
  unfold Process.poll
  rw [set_up_keep (Or.inr (by simp [reading])), Seat.keep]
  simp [isOpen, quiet, reading, noFatal, input, Process.afterSend, Seat.keep]

theorem poll_connected {seat : Seat} {revents : PollEvents} (isOpen : seat.client.fd ≠ -1)
    (connecting : seat.client.state = .connecting) (output : revents.pollout = true)
    (requests setUpNs startNs : UInt64) :
    Process.poll requests setUpNs startNs revents (.ok none) seat =
      ⟨(Seat.prepare { seat with client := { seat.client with state := .writing } }
        startNs).seat, .polling⟩ := by
  have quiet : revents ≠ noEvents := by
    rintro rfl
    cases output
  unfold Process.poll
  rw [set_up_keep (Or.inr (by simp [connecting])), Seat.keep]
  simp [isOpen, quiet, connecting, output, StressClient.handleConnect,
    StressClient.verifyConnection]

theorem poll_lowers {base after : StressEcho.Link} {setUpNs startNs : UInt64}
    {revents : PollEvents} {soError : Except Errno (Option Errno)}
    (positive : 0 < requests.toNat) (sound : StressEchoStage.Sound requests id base)
    (honest : StressEcho.Honest requests base (.poll setUpNs startNs revents soError))
    (isOpen : base.clientFd ≠ -1) (ready : revents ≠ noEvents)
    (result : base.advance requests (.poll setUpNs startNs revents soError) = some after) :
    work requests after < work requests base := by
  obtain ⟨within, noFatal, rfl⟩ := honest
  unfold StressEcho.Link.advance at result
  dsimp only at result
  split at result
  · rename_i polling
    cases result
    cases sound.stage with
    | finished closed completed quiet => exact absurd closed isOpen
    | fresh _ sameId connecting next completed slot quiet =>
        rw [set_up_keep (Or.inr (by simp [connecting])), Seat.keep] at within
        have output := pollout_of_ready (by simp [connecting]) within noFatal ready
        rw [poll_connected isOpen connecting output]
        obtain ⟨record, prepared, _⟩ := prepare_ready
          { base.client.seat with client := { base.client.seat.client with state := .writing } }
          startNs
        rw [prepared]
        exact work_begin (by rw [next]; exact positive) rfl quiet.toServer quiet.toClient quiet.slot
    | busy busy =>
        have doing := busy.doing
        rw [polling] at doing
        rw [set_up_keep (Or.inr doing.state.1), Seat.keep] at within
        cases doing with
        | writing state unread next =>
            have output := pollout_of_ready (by simp [state]) within noFatal ready
            rw [poll_writing isOpen state output noFatal]
            apply work_of_pending
            · rfl
            · unfold pending transit
              simp [state, polling, stance]
        | reading state sent unfinished next =>
            have input := pollin_of_ready state within noFatal ready
            rw [poll_reading isOpen state input noFatal]
            apply work_of_pending
            · rfl
            · unfold pending transit
              simp [state, polling, stance]
  · cases result

theorem send_piece_granted {seat : Seat} {free : Nat} (requests startNs : UInt64)
    (revents : PollEvents) (some : 0 < free)
    (pending : seat.client.sendOffset < seat.client.sendLen) :
    ∃ count within changed bytes, 0 < count ∧ bytes.length = count ∧
      Process.sendPiece requests startNs revents seat (.ok free) =
        ⟨⟨{ seat with client := seat.client.advance count within, stats := changed },
          .sending revents⟩, bytes, []⟩ := by
  obtain ⟨count, within, positive, bytes, client, exit⟩ :=
    send_turn_granted seat.stats some pending
  refine ⟨count, within, (sendTurn seat.client seat.stats (.ok free)).stats,
    seat.client.unsent.take count, positive, ?_, ?_⟩
  · rw [unsent_eq, List.length_take, List.length_drop, request_length]
    exact Nat.min_eq_left within
  · unfold Process.sendPiece
    rw [if_pos pending]
    dsimp only
    rw [exit, bytes, client]

theorem send_lowers {base after : StressEcho.Link} {startNs : UInt64} {room : SendResult}
    (sound : StressEchoStage.Sound requests id base) (accepts : Accepts room)
    (granted : base.client.seat.client.sendOffset < base.client.seat.client.sendLen →
      ∀ reason, room ≠ .error reason)
    (result : base.advance requests (.clientSend startNs room) = some after) :
    work requests after < work requests base := by
  unfold StressEcho.Link.advance at result
  dsimp only at result
  split at result
  · rename_i revents sending
    cases result
    have doing := (busy_of_not_polling sound (by simp [sending])).doing
    rw [sending] at doing
    obtain ⟨state, _, noInput⟩ := doing.sending
    by_cases unsent : base.client.seat.client.sendOffset < base.client.seat.client.sendLen
    · cases room with
      | error reason => exact absurd rfl (granted unsent reason)
      | ok free =>
          obtain ⟨count, within, changed, bytes, positive, length, piece⟩ :=
            send_piece_granted requests startNs revents accepts unsent
          rw [piece]
          apply work_of_pending
          · rfl
          · unfold pending transit
            simp only [state, sending, stance, StressClient.Client.advance, List.length_append,
              length, true_or, if_true]
            omega
    · unfold Process.sendPiece
      rw [if_neg unsent, after_handler_ok rfl]
      dsimp only
      rw [after_send_keep noInput (by simp)]
      apply work_of_pending
      · rfl
      · unfold pending transit
        simp [state, sending, stance]
  · cases result

/-- The next request begins, or nothing is left to do. -/
theorem completes_lowers {base after : StressEcho.Link} {startNs : UInt64}
    {turn : StressClient.Turn} (reading : base.client.seat.client.state = .reading)
    (validated : Validated base.client.seat.client turn)
    (client : after.client = Process.afterRecv requests startNs
      (Seat.keep { base.client.seat with client := turn.client, stats := turn.stats }))
    (toServer : after.toServer = []) (toClient : after.toClient = [])
    (idle : after.slot.view = LineEcho.empty) : work requests after < work requests base := by
  unfold Process.afterRecv at client
  simp only [Seat.keep] at client
  rw [Seat.doneStage, if_pos validated.state] at client
  split_ifs at client with more
  · obtain ⟨record, prepared, _⟩ := prepare_ready
      { base.client.seat with client := turn.client, stats := turn.stats } startNs
    rw [prepared] at client
    exact work_begin (UInt64.lt_iff_toNat_lt.mp more) (by rw [client]) toServer toClient idle
  · have settled : pending after = 0 := by
      rw [pending, client]
      exact if_neg (by simp [Seat.finish, StressClient.closeClient])
    apply work_of_pending
    · rw [client]
      rfl
    · rw [settled, pending, reading, if_pos (Or.inr rfl)]
      have some : 0 < stance .reading base.client.position := by
        cases base.client.position <;> simp [stance]
      omega

theorem recv_lowers {base after : StressEcho.Link} {doneNs startNs : UInt64}
    {bytes : List Byte} (sound : StressEchoStage.Sound requests id base)
    (delivers : Delivers base.toClient (base.slot.clientFd = -1) [.eagain, .eintr] (.ok bytes))
    (result : base.advance requests (.clientRecv doneNs startNs (.ok bytes)) = some after) :
    work requests after < work requests base := by
  unfold StressEcho.Link.advance at result
  dsimp only at result
  split at result
  · rename_i receiving
    cases result
    have busy := busy_of_not_polling sound (by simp [receiving])
    have doing := busy.doing
    rw [receiving] at doing
    obtain ⟨state, _, _⟩ := doing.receiving
    have space := response_space busy.short busy.exchange
    rcases delivers_cases delivers (Nat.sub_pos_of_lt space) with
      ⟨chunk, rest, nonempty, split, answer⟩ | ⟨closed, _, _⟩ | ⟨reason, _, answer⟩
    · have exchange := busy.exchange
      have some : 0 < chunk.length := List.length_pos_iff.mpr nonempty
      rw [split] at exchange
      rcases recv_piece_chunk doneNs startNs busy.frame space exchange nonempty answer with
        ⟨fits, changed, piece, _, _⟩ | ⟨turn, validated, noWire, noRest, idle, piece⟩
      · rw [piece]
        apply work_of_pending
        · rfl
        · unfold pending transit
          simp only [state, receiving, stance, StressClient.Client.append, split, List.drop_left,
            List.length_append, or_true, if_true]
          omega
      · rw [piece]
        apply completes_lowers state validated
        · rfl
        · exact noWire
        · rw [split, List.drop_left, noRest]
        · exact idle
    · exact absurd (of_decide_eq_true closed) busy.slot
    · cases answer
  · cases result

end LinuxSystemPrograms.StressEpollProgress
