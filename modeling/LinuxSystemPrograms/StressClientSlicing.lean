import LinuxSystemPrograms.StressEchoCompletion

/-!
# The verdicts of the stress client and the slicing of its input

One connection of the client whose server returns the bytes of a fixed stream, whatever it
is sent. `handle_recv` keeps what it has received behind a response, and `prepare_request`
drops it, so a verdict depends on where `recv` has cut the stream. `Judged` says what the
requests so far have consumed of it.
-/

namespace LinuxSystemPrograms.StressClientSlicing

open LinuxSystemPrograms.CharArray
open LinuxSystemPrograms.ConnectionAccount
open LinuxSystemPrograms.Framing
open LinuxSystemPrograms.Sockets
open LinuxSystemPrograms.StressClient
open LinuxSystemPrograms.StressClientHandlers
open LinuxSystemPrograms.StressClientSituations
open LinuxSystemPrograms.StressEcho
open LinuxSystemPrograms.StressEchoCompletion
open LinuxSystemPrograms.StressEchoStage
open LinuxSystemPrograms.StressEchoTurns
open LinuxSystemPrograms.Transition

set_option autoImplicit false

/-- `unread` is the rest of the stream. -/
structure Conn where
  client : Process
  unread : List Byte
  history : List Report

/-- `stats` is what the other clients have made of the statistics by the time of `poll`. -/
inductive Move where
  | poll (stats : Stats) (setUpNs startNs : UInt64) (revents : PollEvents)
      (soError : Except Errno (Option Errno))
  | send (startNs : UInt64) (room : SendResult)
  | recv (doneNs startNs : UInt64) (ready : RecvResult)

namespace Conn

def advance (requests : UInt64) (conn : Conn) : Move → Option Conn
  | .poll stats setUpNs startNs revents soError =>
      match conn.client.position with
      | .polling =>
          some { conn with
            client := Process.poll requests setUpNs startNs revents soError
              { conn.client.seat with stats := stats } }
      | _ => none
  | .send startNs room =>
      match conn.client.position with
      | .sending revents =>
          let piece := Process.sendPiece requests startNs revents conn.client.seat room
          some { conn with
            client := piece.process
            history := conn.history ++ piece.reports }
      | _ => none
  | .recv doneNs startNs ready =>
      match conn.client.position with
      | .receiving =>
          let piece := Process.recvPiece requests doneNs startNs conn.client.seat ready
          some
            { client := piece.process
              unread := conn.unread.drop piece.bytes.length
              history := conn.history ++ piece.reports }
      | _ => none

end Conn

/-- `recv` returns the next bytes of the stream. Failures are of other kinds than `EPROTO`,
which is the client's own word for a wrong response. -/
def Slices (unread : List Byte) : RecvResult → Prop
  | .ok chunk => chunk <+: unread
  | .error reason => reason ≠ .eproto

def Honest (requests : UInt64) (conn : Conn) : Move → Prop
  | .poll _ setUpNs _ revents _ =>
      revents.Within (requested (conn.client.seat.setUp requests setUpNs).seat.client)
  | .send _ _ => True
  | .recv _ _ ready => Slices conn.unread ready

structure Opened (id : Int32) (stream : List Byte) (conn : Conn) : Prop where
  client : ∃ fd, 0 ≤ fd ∧ conn.client.seat.client = { resetClient with fd := fd, id := id }
  nextSequence : conn.client.seat.nextSequence = 0
  position : conn.client.position = .polling
  unread : conn.unread = stream
  history : conn.history = []

def system (requests : UInt64) (id : Int32) (stream : List Byte) : System Conn Move where
  init := Opened id stream
  step conn move after := Honest requests conn move ∧ conn.advance requests move = some after

inductive Verdict where
  | completed
  | eproto
  deriving DecidableEq, Repr

def verdicts (history : List Report) : List Verdict :=
  history.filterMap fun
    | .completed _ _ => some .completed
    | .clientRecv (.fail .eproto) => some .eproto
    | _ => none

/-- `rest` is where the response to request `count` is looked for when the ones before it
were completed: behind each of them some bytes that came with it have been dropped. -/
inductive Judged (id : Int32) (stream : List Byte) : Nat → List Byte → Prop where
  | start : Judged id stream 0 stream
  | next {count : Nat} (dropped rest : List Byte)
      (prior : Judged id stream count (payload id (UInt64.ofNat count) ++ dropped ++ rest))
      (together : (payload id (UInt64.ofNat count) ++ dropped).length ≤ bufSize) :
      Judged id stream (count + 1) rest

/-! ## One system call -/

structure Ended (process : Process) : Prop where
  closed : process.seat.client.fd = -1
  position : process.position = .polling

/-- One run through the loop of `handle_recv`. -/
inductive Reads (requests startNs : UInt64) (seat : Seat) (piece : Piece) : Prop where
  | goesOn (same : SameRequest seat.client piece.process.seat.client)
      (next : piece.process.seat.nextSequence = seat.nextSequence)
      (response : piece.process.seat.client.response = seat.client.response ++ piece.bytes)
      (doing : Doing piece.process.seat.client piece.process.position)
      (silent : verdicts piece.reports = [])
  | ends (ended : Ended piece.process) (unfinished : newline ∉ seat.client.response ++ piece.bytes)
      (silent : verdicts piece.reports = [])
  | rejects (ended : Ended piece.process) (line tail : List Byte) (frame : Frame newline line)
      (split : seat.client.response ++ piece.bytes = line ++ tail)
      (wrong : line ≠ seat.client.request) (verdict : verdicts piece.reports = [.eproto])
  | completes (turn : Turn) (validated : Validated seat.client turn) (dropped : List Byte)
      (split : seat.client.response ++ piece.bytes = seat.client.request ++ dropped)
      (together : (seat.client.request ++ dropped).length ≤ bufSize)
      (process : piece.process = Process.afterRecv requests startNs
        (Seat.keep { seat with client := turn.client, stats := turn.stats }))
      (verdict : verdicts piece.reports = [.completed])

variable {requests : UInt64} {id : Int32} {stream : List Byte}

structure Asking (requests : UInt64) (id : Int32) (stream : List Byte) (conn : Conn)
    (count : Nat) : Prop where
  isOpen : conn.client.seat.client.fd ≠ -1
  sameId : conn.client.seat.client.id = id
  next : conn.client.seat.nextSequence.toNat = count + 1
  bound : count = 0 ∨ count + 1 ≤ requests.toNat
  request : conn.client.seat.client.request = payload id (UInt64.ofNat count)
  judged : Judged id stream count (conn.client.seat.client.response ++ conn.unread)
  doing : Doing conn.client.seat.client conn.client.position
  decided : verdicts conn.history = List.replicate count .completed

/-- The first request is sent however many there are to be. -/
inductive Status (requests : UInt64) (id : Int32) (stream : List Byte) (conn : Conn) : Prop where
  | fresh (isOpen : conn.client.seat.client.fd ≠ -1) (sameId : conn.client.seat.client.id = id)
      (connecting : conn.client.seat.client.state = .connecting)
      (next : conn.client.seat.nextSequence = 0) (position : conn.client.position = .polling)
      (unread : conn.unread = stream) (decided : verdicts conn.history = [])
  | asking (count : Nat) (asking : Asking requests id stream conn count)
  | ended (ended : Ended conn.client) (count : Nat) (rest : List Byte)
      (bound : count ≤ max 1 requests.toNat) (judged : Judged id stream count rest)
      (decided : verdicts conn.history = List.replicate count .completed)
  | rejected (ended : Ended conn.client) (count : Nat) (line tail : List Byte)
      (bound : count = 0 ∨ count + 1 ≤ requests.toNat) (frame : Frame newline line)
      (judged : Judged id stream count (line ++ tail))
      (wrong : line ≠ payload id (UInt64.ofNat count))
      (decided : verdicts conn.history = List.replicate count .completed ++ [.eproto])

theorem begin_asking {conn : Conn} {seat : Seat} {count : Nat} (startNs : UInt64)
    (client : conn.client = ⟨(seat.prepare startNs).seat, .polling⟩)
    (isOpen : seat.client.fd ≠ -1) (sameId : seat.client.id = id)
    (next : seat.nextSequence.toNat = count) (bound : count = 0 ∨ count + 1 ≤ requests.toNat)
    (judged : Judged id stream count conn.unread)
    (decided : verdicts conn.history = List.replicate count .completed) :
    Asking requests id stream conn count := by
  obtain ⟨record, seatEq, prepared, unread⟩ := prepare_ready seat startNs
  have successor : (seat.nextSequence + 1).toNat = count + 1 := by
    have upper := UInt64.toNat_lt requests
    rw [UInt64.toNat_add, UInt64.toNat_one]
    omega
  have sequence : seat.nextSequence = UInt64.ofNat count := by
    rw [← next, UInt64.ofNat_toNat]
  rw [seatEq] at client
  constructor
  · rw [client, prepared.fd]
    exact isOpen
  · rw [client, prepared.id, sameId]
  · rw [client, successor]
  · exact bound
  · rw [client, prepared.request, sameId, sequence]
  · rw [client, unread]
    exact judged
  · rw [client]
    exact .writing prepared.state unread (Or.inl rfl)
  · exact decided

theorem Asking.count_le {conn : Conn} {count : Nat}
    (asking : Asking requests id stream conn count) : count + 1 ≤ max 1 requests.toNat := by
  have bound := asking.bound
  omega

theorem prepare_writes (seat : Seat) (startNs : UInt64) :
    (seat.prepare startNs).seat.client.state = .writing ∧
      (seat.prepare startNs).seat.client.response = [] := by
  obtain ⟨record, result, prepared⟩ :=
    prepare_request_ok seat.client seat.nextSequence startNs
  unfold Seat.prepare
  rw [result]
  refine ⟨prepared.state, ?_⟩
  apply List.eq_nil_of_length_eq_zero
  rw [response_length]
  exact prepared.recvLen

/-- A request is completed that was not the last, and the next one is prepared. -/
theorem Asking.following {conn : Conn} {count : Nat} {startNs : UInt64} {turn : Turn}
    (asking : Asking requests id stream conn count) (after : Conn)
    (validated : Validated conn.client.seat.client turn)
    (client : after.client = Process.afterRecv requests startNs
      (Seat.keep { conn.client.seat with client := turn.client, stats := turn.stats }))
    (more : conn.client.seat.nextSequence < requests)
    (judged : Judged id stream (count + 1) after.unread)
    (decided : verdicts after.history = List.replicate (count + 1) .completed) :
    Asking requests id stream after (count + 1) ∧
      after.client.seat.client.state = .writing ∧ after.client.seat.client.response = [] ∧
      after.client.position = .polling := by
  unfold Process.afterRecv at client
  simp only [Seat.keep] at client
  rw [Seat.doneStage, if_pos validated.state, if_pos (by exact more)] at client
  have next := asking.next
  have room := UInt64.lt_iff_toNat_lt.mp more
  have isOpen : turn.client.fd ≠ -1 := by
    rw [validated.fd]
    exact asking.isOpen
  have sameId : turn.client.id = id := by rw [validated.id, asking.sameId]
  have bound : count + 1 + 1 ≤ requests.toNat := by
    rw [← next]
    exact room
  have begun := begin_asking startNs client isOpen sameId next (Or.inr bound) judged decided
  obtain ⟨state, response⟩ := prepare_writes
    ⟨turn.client, conn.client.seat.nextSequence, turn.stats⟩ startNs
  rw [client]
  exact ⟨begun, state, response, rfl⟩

/-- The request is completed: the next one begins, or it was the last. -/
theorem Asking.complete {conn after : Conn} {count : Nat} {startNs : UInt64} {turn : Turn}
    (asking : Asking requests id stream conn count)
    (validated : Validated conn.client.seat.client turn)
    (client : after.client = Process.afterRecv requests startNs
      (Seat.keep { conn.client.seat with client := turn.client, stats := turn.stats }))
    (judged : Judged id stream (count + 1) after.unread)
    (decided : verdicts after.history = List.replicate (count + 1) .completed) :
    Status requests id stream after := by
  by_cases more : conn.client.seat.nextSequence < requests
  · exact .asking (count + 1) (asking.following after validated client more judged decided).1
  · unfold Process.afterRecv at client
    simp only [Seat.keep] at client
    rw [Seat.doneStage, if_pos validated.state, if_neg (by exact more)] at client
    refine .ended ?_ (count + 1) after.unread asking.count_le judged decided
    rw [client]
    exact ⟨rfl, rfl⟩

theorem judged_earlier {count earlier : Nat} {rest : List Byte}
    (judged : Judged id stream count rest) (le : earlier ≤ count) :
    ∃ before, Judged id stream earlier before := by
  induction judged with
  | start => exact ⟨stream, Nat.le_zero.mp le ▸ .start⟩
  | next dropped rest prior together ih =>
      rcases Nat.le_succ_iff.mp le with older | same
      · exact ih older
      · exact ⟨rest, same ▸ .next dropped rest prior together⟩

theorem Status.verdict {conn : Conn} (status : Status requests id stream conn) {request : Nat}
    {verdict : Verdict} (decided : (verdicts conn.history)[request]? = some verdict) :
    (verdict = .completed ∧ request + 1 ≤ max 1 requests.toNat ∧
        ∃ rest, Judged id stream (request + 1) rest) ∨
      (verdict = .eproto ∧ ∃ line tail, Frame newline line ∧
        Judged id stream request (line ++ tail) ∧ line ≠ payload id (UInt64.ofNat request)) := by
  have completes : ∀ {count rest}, count ≤ max 1 requests.toNat → Judged id stream count rest →
      (List.replicate count Verdict.completed)[request]? = some verdict →
      verdict = .completed ∧ request + 1 ≤ max 1 requests.toNat ∧
        ∃ rest, Judged id stream (request + 1) rest := by
    intro count rest bound judged found
    obtain ⟨less, same⟩ := List.getElem?_eq_some_iff.mp found
    rw [List.length_replicate] at less
    rw [List.getElem_replicate] at same
    exact ⟨same.symm, by omega, judged_earlier judged less⟩
  cases status with
  | fresh isOpen sameId connecting next position unread none =>
      rw [none] at decided
      cases decided
  | asking count asking =>
      have bound := asking.count_le
      rw [asking.decided] at decided
      exact Or.inl (completes (by omega) asking.judged decided)
  | ended ended count rest bound judged all =>
      rw [all] at decided
      exact Or.inl (completes bound judged decided)
  | rejected ended count line tail bound frame judged wrong all =>
      rw [all] at decided
      by_cases before : request < count
      · rw [List.getElem?_append_left (by simpa using before)] at decided
        exact Or.inl (completes (by omega) judged decided)
      · right
        obtain ⟨less, same⟩ := List.getElem?_eq_some_iff.mp decided
        rw [List.length_append, List.length_replicate, List.length_singleton] at less
        have last : request = count := by omega
        subst last
        rw [List.getElem_append_right (by simp)] at same
        simp only [List.length_replicate, Nat.sub_self, List.getElem_cons_zero] at same
        exact ⟨same.symm, line, tail, frame, judged, wrong⟩

def pollOut : PollEvents := ⟨false, true, false, false, false⟩

def pollIn : PollEvents := ⟨true, false, false, false, false⟩

theorem poll_writing {seat : Seat} (isOpen : seat.client.fd ≠ -1)
    (writing : seat.client.state = .writing) :
    Process.poll requests 0 0 pollOut (.ok none) seat = ⟨seat, .sending pollOut⟩ := by
  unfold Process.poll
  rw [set_up_keep (Or.inr (by simp [writing])), Seat.keep]
  simp [isOpen, writing, pollOut, noEvents]

theorem poll_reading {seat : Seat} (isOpen : seat.client.fd ≠ -1)
    (reading : seat.client.state = .reading) :
    Process.poll requests 0 0 pollIn (.ok none) seat = ⟨seat, .receiving⟩ := by
  unfold Process.poll
  rw [set_up_keep (Or.inr (by simp [reading])), Seat.keep]
  simp [isOpen, reading, pollIn, noEvents, Process.afterSend, Seat.keep]

variable {count : Nat} {unread : List Byte}

end LinuxSystemPrograms.StressClientSlicing
