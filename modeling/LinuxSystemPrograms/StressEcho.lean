import LinuxSystemPrograms.SelectServerV2
import LinuxSystemPrograms.StressClient

/-!
# A connection of the stress client served by the select server

The loop bodies of `main` and of the two handlers of `stress_test_client.c` are cut at
their system calls, so that the server can act between any two of them; `serve_run` shows
that the pieces, put together again, are `Seat.serve`. The server's handlers make one
system call each. Two byte lists join the processes: `send` appends what it accepted,
`recv` removes what it returned.
-/

namespace LinuxSystemPrograms.StressEcho

open LinuxSystemPrograms.ConnectionAccount
open LinuxSystemPrograms.Sockets
open LinuxSystemPrograms.StressClient
open LinuxSystemPrograms.Transition

set_option autoImplicit false

/-- The next system call of the client's process; `revents` is what `poll` has reported. -/
inductive Position where
  | polling
  | sending (revents : PollEvents)
  | receiving
  deriving DecidableEq, Repr

structure Process where
  seat : Seat
  position : Position

/-- What the two sides' handlers return, and each validated response as it lay in
`recv_buf` when it was compared with `send_buf`. -/
inductive Report where
  | serverRecv (ret : Int)
  | serverSend (ret : Int)
  | clientSend (exit : Exit)
  | clientRecv (exit : Exit)
  | completed (request response : List Byte)
  deriving DecidableEq

/-- What one system call of the client and the code behind it do; `bytes` are the ones that
`send` accepted or `recv` returned. -/
structure Piece where
  process : Process
  bytes : List Byte
  reports : List Report

def acceptedOf (offered : List Byte) : SendResult → List Byte
  | .ok count => offered.take count
  | .error _ => []

namespace Process

def afterRecv (requests startNs : UInt64) (served : Served) : Process where
  seat :=
    match served.outcome with
    | some _ => served.seat
    | none => (served.seat.doneStage requests startNs).seat
  position := .polling

def afterSend (requests startNs : UInt64) (revents : PollEvents) (served : Served) : Process :=
  if served.outcome = none ∧ served.seat.client.state = .reading ∧ revents.pollin = true then
    ⟨served.seat, .receiving⟩
  else afterRecv requests startNs served

/-- From the head of the main loop through `poll` to the first call of a handler. -/
def poll (requests setUpNs startNs : UInt64) (revents : PollEvents)
    (soError : Except Errno (Option Errno)) (seat : Seat) : Process :=
  let seat := (seat.setUp requests setUpNs).seat
  if seat.client.fd = -1 then ⟨seat, .polling⟩
  else if revents = noEvents then ⟨seat, .polling⟩
  else if seat.client.state = .connecting then
    if revents.pollout || revents.pollerr || revents.pollhup then
      match handleConnect seat.client soError with
      | (client, .ok) => ⟨(Seat.prepare { seat with client := client } startNs).seat, .polling⟩
      | (client, .fail _) => ⟨(Seat.fail { seat with client := client }).seat, .polling⟩
    else ⟨seat, .polling⟩
  else if revents.pollerr || revents.pollhup || revents.pollnval then ⟨seat.fail.seat, .polling⟩
  else if seat.client.state = .writing ∧ revents.pollout = true then ⟨seat, .sending revents⟩
  else afterSend requests startNs revents seat.keep

def sendPiece (requests startNs : UInt64) (revents : PollEvents) (seat : Seat)
    (room : SendResult) : Piece :=
  if seat.client.sendOffset < seat.client.sendLen then
    let turn := sendTurn seat.client seat.stats room
    let bytes := acceptedOf seat.client.unsent
      (send (seat.client.sendLen - seat.client.sendOffset) room)
    match turn.exit with
    | none => ⟨⟨{ seat with client := turn.client, stats := turn.stats }, .sending revents⟩, bytes, []⟩
    | some exit =>
        { process := afterSend requests startNs revents
            (seat.afterHandler ⟨turn.client, turn.stats, exit⟩)
          bytes := bytes
          reports := [.clientSend exit] }
  else
    { process := afterSend requests startNs revents
        (seat.afterHandler ⟨{ seat.client with state := .reading }, seat.stats, .ok⟩)
      bytes := []
      reports := [.clientSend .ok] }

def recvPiece (requests doneNs startNs : UInt64) (seat : Seat) (ready : RecvResult) : Piece :=
  if bufSize ≤ seat.client.recvLen then
    { process := afterRecv requests startNs
        (seat.afterHandler ⟨seat.client, seat.stats, .fail .emsgsize⟩)
      bytes := []
      reports := [.clientRecv (.fail .emsgsize)] }
  else
    let turn := recvTurn seat.client seat.stats doneNs ready
    let bytes := chunkOf (recv (bufSize - seat.client.recvLen) ready)
    let validated := if turn.client.state = .done
      then [.completed seat.client.request (seat.client.response ++ bytes)] else []
    match turn.exit with
    | none => ⟨⟨{ seat with client := turn.client, stats := turn.stats }, .receiving⟩, bytes, []⟩
    | some exit =>
        { process := afterRecv requests startNs
            (seat.afterHandler ⟨turn.client, turn.stats, exit⟩)
          bytes := bytes
          reports := validated ++ [.clientRecv exit] }

/-- The rest of `handle_send`, with one answer for each run through its loop. -/
def runSends (requests startNs : UInt64) : List SendResult → Process → Process
  | [], process => process
  | room :: rest, process =>
      match process.position with
      | .sending revents =>
          runSends requests startNs rest
            (sendPiece requests startNs revents process.seat room).process
      | _ => process

def runRecvs (requests doneNs startNs : UInt64) : List RecvResult → Process → Process
  | [], process => process
  | ready :: rest, process =>
      match process.position with
      | .receiving =>
          runRecvs requests doneNs startNs rest
            (recvPiece requests doneNs startNs process.seat ready).process
      | _ => process

theorem run_sends_elsewhere (requests startNs : UInt64) (answers : List SendResult)
    {process : Process} (elsewhere : ∀ revents, process.position ≠ .sending revents) :
    runSends requests startNs answers process = process := by
  cases answers with
  | nil => rfl
  | cons room rest =>
      unfold runSends
      split
      · rename_i revents position
        exact absurd position (elsewhere revents)
      · rfl

theorem run_recvs_elsewhere (requests doneNs startNs : UInt64) (answers : List RecvResult)
    {process : Process} (elsewhere : process.position ≠ .receiving) :
    runRecvs requests doneNs startNs answers process = process := by
  cases answers with
  | nil => rfl
  | cons ready rest =>
      unfold runRecvs
      split
      · exact absurd ‹_› elsewhere
      · rfl

theorem after_send_not_sending (requests startNs : UInt64) (revents : PollEvents)
    (served : Served) (reported : PollEvents) :
    (afterSend requests startNs revents served).position ≠ .sending reported := by
  unfold afterSend
  split_ifs <;> simp [afterRecv]

/-- The last answer belongs to the check of the loop's condition behind the last `send`. -/
theorem run_sends_handler {requests startNs : UInt64} {revents : PollEvents} {seat : Seat}
    {answers : List SendResult} {handled : Handled} (last : SendResult)
    (result : handleSend seat.client seat.stats answers = some handled) :
    runSends requests startNs (answers ++ [last]) ⟨seat, .sending revents⟩ =
      afterSend requests startNs revents (seat.afterHandler handled) := by
  induction answers generalizing seat with
  | nil =>
      unfold handleSend at result
      split_ifs at result with pending
      cases result
      rw [List.nil_append, runSends]
      dsimp only
      rw [sendPiece, if_neg pending]
      rfl
  | cons room rest ih =>
      rw [List.cons_append, runSends]
      unfold handleSend at result
      split_ifs at result with pending
      · dsimp only at result ⊢
        rw [sendPiece, if_pos pending]
        dsimp only
        cases exited : (sendTurn seat.client seat.stats room).exit with
        | none =>
            rw [exited] at result
            exact ih result
        | some exit =>
            rw [exited] at result
            cases result
            exact run_sends_elsewhere _ _ _ (after_send_not_sending _ _ _ _)
      · cases result
        dsimp only
        rw [sendPiece, if_neg pending]
        exact run_sends_elsewhere _ _ _ (after_send_not_sending _ _ _ _)

theorem run_recvs_handler {requests doneNs startNs : UInt64} {seat : Seat}
    {answers : List RecvResult} {handled : Handled} (last : RecvResult)
    (result : handleRecv seat.client seat.stats doneNs answers = some handled) :
    runRecvs requests doneNs startNs (answers ++ [last]) ⟨seat, .receiving⟩ =
      afterRecv requests startNs (seat.afterHandler handled) := by
  have returned : ∀ rest served, runRecvs requests doneNs startNs rest
      (afterRecv requests startNs served) = afterRecv requests startNs served :=
    fun rest served => run_recvs_elsewhere _ _ _ _ (by simp [afterRecv])
  induction answers generalizing seat with
  | nil =>
      unfold handleRecv at result
      split_ifs at result with full
      cases result
      rw [List.nil_append, runRecvs]
      dsimp only
      rw [recvPiece, if_pos full]
      rfl
  | cons ready rest ih =>
      rw [List.cons_append, runRecvs]
      unfold handleRecv at result
      split_ifs at result with full
      · cases result
        dsimp only
        rw [recvPiece, if_pos full]
        dsimp only
        exact returned _ _
      · dsimp only at result ⊢
        rw [recvPiece, if_neg full]
        dsimp only
        cases exited : (recvTurn seat.client seat.stats doneNs ready).exit with
        | none =>
            rw [exited] at result
            exact ih result
        | some exit =>
            rw [exited] at result
            cases result
            exact returned _ _

theorem after_recv_run {requests startNs : UInt64} {served final : Served}
    (result : Seat.andThen served (fun seat => some (seat.doneStage requests startNs)) =
      some final) :
    afterRecv requests startNs served = ⟨final.seat, .polling⟩ := by
  unfold Seat.andThen at result
  unfold afterRecv
  split at result
  · cases result
    simp [*]
  · cases result
    simp [*]

theorem after_send_run {requests : UInt64} {revents : PollEvents} {answers : Seat.Answers}
    {served final : Served} (last : RecvResult)
    (result : (Seat.andThen served fun seat => (seat.recvStage revents answers).bind fun received =>
      Seat.andThen received fun seat => some (seat.doneStage requests answers.startNs)) =
        some final) :
    runRecvs requests answers.doneNs answers.startNs (answers.recvs ++ [last])
        (afterSend requests answers.startNs revents served) = ⟨final.seat, .polling⟩ := by
  unfold afterSend
  split_ifs with ready
  · obtain ⟨goesOn, reads⟩ := ready
    unfold Seat.andThen at result
    rw [goesOn] at result
    dsimp only at result
    rw [Seat.recvStage, if_pos reads, Option.bind_eq_some_iff] at result
    obtain ⟨received, stage, rest⟩ := result
    obtain ⟨handled, receives, rfl⟩ := Option.map_eq_some_iff.mp stage
    rw [run_recvs_handler last receives]
    exact after_recv_run rest
  · rw [run_recvs_elsewhere _ _ _ _ (by simp [afterRecv])]
    apply after_recv_run
    rw [← result]
    unfold Seat.andThen
    cases outcome : served.outcome with
    | some given => rfl
    | none =>
        have skipped : served.seat.recvStage revents answers = some served.seat.keep := by
          rw [Seat.recvStage, if_neg]
          intro reads
          exact ready ⟨outcome, reads⟩
        simp only [skipped, Option.bind_some, Seat.keep]

/-- The pieces of one pass, one after the other, are the body of `main`'s inner loop. -/
theorem serve_run {requests setUpNs : UInt64} {revents : PollEvents} {answers : Seat.Answers}
    {seat : Seat} {served : Served} (lastSend : SendResult) (lastRecv : RecvResult)
    (result : (seat.setUp requests setUpNs).seat.serve requests revents answers = some served) :
    runRecvs requests answers.doneNs answers.startNs (answers.recvs ++ [lastRecv])
        (runSends requests answers.startNs (answers.sends ++ [lastSend])
          (poll requests setUpNs answers.startNs revents answers.soError seat)) =
      ⟨served.seat, .polling⟩ := by
  unfold poll
  generalize (seat.setUp requests setUpNs).seat = ready at result ⊢
  have settled : ∀ after : Seat, runRecvs requests answers.doneNs answers.startNs
      (answers.recvs ++ [lastRecv]) (runSends requests answers.startNs (answers.sends ++ [lastSend])
        ⟨after, .polling⟩) = ⟨after, .polling⟩ := by
    intro after
    rw [run_sends_elsewhere _ _ _ (by simp), run_recvs_elsewhere _ _ _ _ (by simp)]
  unfold Seat.serve at result
  dsimp only
  split_ifs at result ⊢ with closed quiet connecting writable fatal sends
  · cases result
    exact settled _
  · cases result
    exact settled _
  · cases connected : handleConnect ready.client answers.soError with
    | mk client exit =>
        rw [connected] at result
        cases exit with
        | ok =>
            cases result
            exact settled _
        | fail reason =>
            cases result
            exact settled _
  · cases result
    exact settled _
  · cases result
    exact settled _
  · rw [Seat.sendStage, if_pos sends, Option.bind_eq_some_iff] at result
    obtain ⟨sent, stage, rest⟩ := result
    obtain ⟨handled, sending, rfl⟩ := Option.map_eq_some_iff.mp stage
    rw [run_sends_handler lastSend sending]
    exact after_send_run lastRecv rest
  · rw [Seat.sendStage, if_neg sends, Option.bind_some] at result
    rw [run_sends_elsewhere _ _ _ (after_send_not_sending _ _ _ _)]
    exact after_send_run lastRecv result

end Process

structure Link where
  client : Process
  slot : EchoClient.Client
  toServer : List Byte
  toClient : List Byte
  history : List Report

inductive Move where
  | poll (setUpNs startNs : UInt64) (revents : PollEvents) (soError : Except Errno (Option Errno))
  | clientSend (startNs : UInt64) (room : SendResult)
  | clientRecv (doneNs startNs : UInt64) (ready : RecvResult)
  | serverRecv (ready : RecvResult)
  | serverSend (room : SendResult)

def closeOn (ret : Int) (slot : EchoClient.Client) : EchoClient.Client :=
  if ret = -1 then slot.reset else slot

namespace Link

def clientFd (link : Link) : Fd := link.client.seat.client.fd

def advance (requests : UInt64) (link : Link) : Move → Option Link
  | .poll setUpNs startNs revents soError =>
      match link.client.position with
      | .polling =>
          some { link with
            client := Process.poll requests setUpNs startNs revents soError link.client.seat }
      | _ => none
  | .clientSend startNs room =>
      match link.client.position with
      | .sending revents =>
          let piece := Process.sendPiece requests startNs revents link.client.seat room
          some { link with
            client := piece.process
            toServer := link.toServer ++ piece.bytes
            history := link.history ++ piece.reports }
      | _ => none
  | .clientRecv doneNs startNs ready =>
      match link.client.position with
      | .receiving =>
          let piece := Process.recvPiece requests doneNs startNs link.client.seat ready
          some { link with
            client := piece.process
            toClient := link.toClient.drop piece.bytes.length
            history := link.history ++ piece.reports }
      | _ => none
  | .serverRecv ready =>
      if link.slot.clientFd = -1 then none
      else
        let (slot, flag, events) := SelectServerV2.handleRecv link.slot ready
        some { link with
          slot := closeOn flag slot
          toServer := link.toServer.drop (received events).length
          history := link.history ++ [.serverRecv flag] }
  | .serverSend room =>
      if link.slot.clientFd = -1 then none
      else
        let (slot, tag, events) := SelectServerV2.handleSend link.slot room
        some { link with
          slot := closeOn tag slot
          toClient := link.toClient ++ sent events
          history := link.history ++ [.serverSend tag] }

end Link

/-- `recv` returns the next bytes of the channel, and 0 only when the other side has closed
and everything was read. -/
def Delivers (channel : List Byte) (closed : Bool) (errors : List Errno) : RecvResult → Prop
  | .ok chunk => chunk <+: channel ∧ (chunk = [] → channel = [] ∧ closed = true)
  | .error reason => reason ∈ errors

def Accepts : SendResult → Prop
  | .ok count => 0 < count
  | .error reason => reason ∈ [Errno.eagain, Errno.eintr]

instance (channel : List Byte) (closed : Bool) (errors : List Errno) :
    (result : RecvResult) → Decidable (Delivers channel closed errors result)
  | .ok chunk => inferInstanceAs (Decidable (chunk <+: channel ∧ _))
  | .error reason => inferInstanceAs (Decidable (reason ∈ errors))

instance : (result : SendResult) → Decidable (Accepts result)
  | .ok count => inferInstanceAs (Decidable (0 < count))
  | .error reason => inferInstanceAs (Decidable (reason ∈ [Errno.eagain, Errno.eintr]))

/-- No system call fails, save for `EAGAIN` anywhere and `EINTR` where the code expects it. -/
def Honest (requests : UInt64) (link : Link) : Move → Prop
  | .poll setUpNs _ revents soError =>
      revents.Within (requested (link.client.seat.setUp requests setUpNs).seat.client) ∧
        (revents.pollerr || revents.pollhup || revents.pollnval) = false ∧ soError = .ok none
  | .clientSend _ room => Accepts room
  | .clientRecv _ _ ready =>
      Delivers link.toClient (link.slot.clientFd = -1) [.eagain, .eintr] ready
  | .serverRecv ready => Delivers link.toServer (link.clientFd = -1) [.eagain] ready
  | .serverSend room => Accepts room

/-- The connection is made; nothing has been sent on it. What the slot's arrays still hold
is from its last owner. -/
structure Opened (id : Int32) (link : Link) : Prop where
  client : ∃ fd, 0 ≤ fd ∧ link.client.seat.client = { resetClient with fd := fd, id := id }
  nextSequence : link.client.seat.nextSequence = 0
  position : link.client.position = .polling
  slot : link.slot.clientFd ≠ -1 ∧ link.slot.used = 0 ∧ link.slot.sendLen = 0
  toServer : link.toServer = []
  toClient : link.toClient = []
  history : link.history = []

def system (requests : UInt64) (id : Int32) : System Link Move where
  init := Opened id
  step link move after := Honest requests link move ∧ link.advance requests move = some after

instance (requests : UInt64) (link : Link) : (move : Move) → Decidable (Honest requests link move)
  | .poll _ _ _ _ => inferInstanceAs (Decidable (_ ∧ _ ∧ _))
  | .clientSend _ room => inferInstanceAs (Decidable (Accepts room))
  | .clientRecv _ _ ready => inferInstanceAs (Decidable (Delivers _ _ _ ready))
  | .serverRecv ready => inferInstanceAs (Decidable (Delivers _ _ _ ready))
  | .serverSend room => inferInstanceAs (Decidable (Accepts room))

def next (requests : UInt64) (link : Link) (move : Move) : Option Link :=
  if Honest requests link move then link.advance requests move else none

theorem next_sound (requests : UInt64) (id : Int32) (link : Link) (move : Move) (after : Link)
    (result : next requests link move = some after) :
    (system requests id).step link move after := by
  unfold next at result
  split_ifs at result with honest
  exact ⟨honest, result⟩

end LinuxSystemPrograms.StressEcho
