import LinuxSystemPrograms.CharArray
import LinuxSystemPrograms.Decimal
import LinuxSystemPrograms.Framing
import LinuxSystemPrograms.Sockets
import LinuxSystemPrograms.Transition
import Mathlib.Data.List.FinRange

/-!
# `stress_test_client.c`

The loops of `handle_send` and `handle_recv` are cut at their system calls: a turn is one
run through a loop body, and a handler consumes the answers of the calls it makes. A
handler that has not returned when its answers are used up gives `none`.

`main` is a step function on the states at the head of its loop. The arrays `clients` and
`next_sequence` are functions of the index; `Seat` is what one iteration of the inner
loops works on.
-/

namespace LinuxSystemPrograms.StressClient

open LinuxSystemPrograms.CharArray
open LinuxSystemPrograms.Framing
open LinuxSystemPrograms.Sockets
open LinuxSystemPrograms.Transition

set_option autoImplicit false

inductive ClientState where
  | connecting
  | writing
  | reading
  | done
  | failed
  deriving DecidableEq, Repr

def bufSize : Nat := 256

structure Client where
  fd : Fd
  id : Int32
  state : ClientState
  sendBuf : List.Vector Byte bufSize
  sendLen : Nat
  sendOffset : Nat
  recvBuf : List.Vector Byte bufSize
  recvLen : Nat
  currentRequestStartNs : UInt64
  requestCompleted : UInt64
  offsetBound : sendOffset ≤ sendLen
  lenBound : sendLen ≤ bufSize
  recvBound : recvLen ≤ bufSize

structure Stats where
  totalRequests : UInt64
  completed : UInt64
  failed : UInt64
  bytesSent : UInt64
  bytesReceived : UInt64
  latencySumNs : UInt64
  latencies : List UInt64
  latencyCapacity : Nat

/-- What a handler returns; `-1` comes with the value of `last_errno`. -/
inductive Exit where
  | ok
  | fail (lastErrno : Errno)
  deriving DecidableEq, Repr

/-- The state after a run through a loop body. `none` stands for `continue`. -/
structure Turn where
  client : Client
  stats : Stats
  exit : Option Exit

structure Handled where
  client : Client
  stats : Stats
  exit : Exit

def statsInit (totalRequests : UInt64) : Stats where
  totalRequests := totalRequests
  completed := 0
  failed := 0
  bytesSent := 0
  bytesReceived := 0
  latencySumNs := 0
  latencies := []
  latencyCapacity := if totalRequests > 1000000 then 1000000 else totalRequests.toNat

def recordLatency (stats : Stats) (latencyNs : UInt64) : Stats :=
  { stats with
    latencySumNs := stats.latencySumNs + latencyNs
    latencies := if stats.latencies.length < stats.latencyCapacity
      then stats.latencies ++ [latencyNs] else stats.latencies }

/-- `"bench-%d-%llu\n"`. -/
def payload (id : Int32) (sequence : UInt64) : List Byte :=
  [98, 101, 110, 99, 104, 45] ++ Decimal.ofInt id.toInt ++ [45] ++
    Decimal.ofNat sequence.toNat ++ [newline]

/-- At most `bufSize - 1` characters, and the terminating zero. -/
def snprintf (buffer : List.Vector Byte bufSize) (text : List Byte) : List.Vector Byte bufSize :=
  memcpy buffer 0 (text.take (bufSize - 1) ++ [0]) (by
    simp only [List.length_append, List.length_take, List.length_singleton, bufSize]
    omega)

namespace Client

/-- `send_buf[0..send_len)`. -/
def request (client : Client) : List Byte :=
  slice client.sendBuf 0 client.sendLen (by have := client.lenBound; omega)

/-- `send_buf[send_offset..send_len)`. -/
def unsent (client : Client) : List Byte :=
  slice client.sendBuf client.sendOffset (client.sendLen - client.sendOffset)
    (by have := client.offsetBound; have := client.lenBound; omega)

/-- `recv_buf[0..recv_len)`. -/
def response (client : Client) : List Byte :=
  slice client.recvBuf 0 client.recvLen (by have := client.recvBound; omega)

theorem cursors_zero : 0 ≤ 0 := Nat.le_refl 0

def zeroed : Client where
  fd := 0
  id := 0
  state := .connecting
  sendBuf := List.Vector.replicate bufSize 0
  sendLen := 0
  sendOffset := 0
  recvBuf := List.Vector.replicate bufSize 0
  recvLen := 0
  currentRequestStartNs := 0
  requestCompleted := 0
  offsetBound := cursors_zero
  lenBound := Nat.zero_le bufSize
  recvBound := Nat.zero_le bufSize

def advance (client : Client) (count : Nat)
    (accepted : count ≤ client.sendLen - client.sendOffset) : Client :=
  { client with
    sendOffset := client.sendOffset + count
    offsetBound := by have := client.offsetBound; omega }

def append (client : Client) (chunk : List Byte)
    (fits : chunk.length ≤ bufSize - client.recvLen) : Client :=
  { client with
    recvBuf := memcpy client.recvBuf client.recvLen chunk
      (by have := client.recvBound; omega)
    recvLen := client.recvLen + chunk.length
    recvBound := by have := client.recvBound; omega }

theorem rest_inside (client : Client) {messageEnd : Nat} (bound : messageEnd ≤ client.recvLen) :
    messageEnd + (client.recvLen - messageEnd) ≤ bufSize := by
  have := client.recvBound
  omega

theorem rest_fits (client : Client) {messageEnd : Nat} (bound : messageEnd ≤ client.recvLen) :
    0 + (slice client.recvBuf messageEnd (client.recvLen - messageEnd)
      (client.rest_inside bound)).length ≤ bufSize := by
  have := client.recvBound
  simp only [slice_length]
  omega

theorem rest_bound (client : Client) (messageEnd : Nat) : client.recvLen - messageEnd ≤ bufSize :=
  Nat.le_trans (Nat.sub_le _ _) client.recvBound

def removeMessage (client : Client) (messageEnd : Nat) (bound : messageEnd ≤ client.recvLen) :
    Client :=
  if messageEnd < client.recvLen then
    { client with
      recvBuf := memcpy client.recvBuf 0
        (slice client.recvBuf messageEnd (client.recvLen - messageEnd) (client.rest_inside bound))
        (client.rest_fits bound)
      recvLen := client.recvLen - messageEnd
      recvBound := client.rest_bound messageEnd }
  else
    { client with
      recvLen := 0
      recvBound := Nat.zero_le _ }

end Client

/-- `some` is the value of `errno` when it returns `-1`; `send_buf` is written either way. -/
def prepareRequest (client : Client) (sequence : UInt64) (now : UInt64) :
    Client × Option Errno :=
  let text := payload client.id sequence
  if fits : text.length < bufSize then
    ({ client with
        sendBuf := snprintf client.sendBuf text
        sendLen := text.length
        sendOffset := 0
        recvLen := 0
        currentRequestStartNs := now
        state := .writing
        offsetBound := Nat.zero_le _
        lenBound := Nat.le_of_lt fits
        recvBound := Nat.zero_le _ }, none)
  else ({ client with sendBuf := snprintf client.sendBuf text }, some .emsgsize)

/-- `getsockopt(.., SO_ERROR, ..)`: it may fail itself, or report the error of `connect`. -/
def verifyConnection (soError : Except Errno (Option Errno)) : Exit :=
  match soError with
  | .error reason => .fail reason
  | .ok (some reason) => .fail reason
  | .ok none => .ok

def handleConnect (client : Client) (soError : Except Errno (Option Errno)) : Client × Exit :=
  match verifyConnection soError with
  | .ok => ({ client with state := .writing }, .ok)
  | .fail reason => (client, .fail reason)

def onSend (client : Client) (stats : Stats) (result : SendResult)
    (bounded : ∀ count, result = .ok count → count ≤ client.sendLen - client.sendOffset) : Turn :=
  match result with
  | .ok 0 => ⟨client, stats, some (.fail (.other 0))⟩
  | .ok (count + 1) =>
      { client := client.advance (count + 1) (bounded (count + 1) rfl)
        stats := { stats with bytesSent := stats.bytesSent + UInt64.ofNat (count + 1) }
        exit := none }
  | .error .eintr => ⟨client, stats, none⟩
  | .error .eagain => ⟨client, stats, some .ok⟩
  | .error reason => ⟨client, stats, some (.fail reason)⟩

def sendTurn (client : Client) (stats : Stats) (room : SendResult) : Turn :=
  onSend client stats (send (client.sendLen - client.sendOffset) room) fun _ => send_ok_le

def handleSend (client : Client) (stats : Stats) : List SendResult → Option Handled
  | [] =>
      if client.sendOffset < client.sendLen then none
      else some ⟨{ client with state := .reading }, stats, .ok⟩
  | room :: rest =>
      if client.sendOffset < client.sendLen then
        let turn := sendTurn client stats room
        match turn.exit with
        | none => handleSend turn.client turn.stats rest
        | some exit => some ⟨turn.client, turn.stats, exit⟩
      else some ⟨{ client with state := .reading }, stats, .ok⟩

/-- The rest of the loop body in `handle_recv` once the chunk is in `recv_buf`. -/
def checkResponse (client : Client) (stats : Stats) (doneNs : UInt64) : Turn :=
  match found : frameLength newline client.response with
  | none => ⟨client, stats, none⟩
  | some messageEnd =>
      if messageEnd ≠ client.sendLen ∨
          slice client.recvBuf 0 client.sendLen (by have := client.lenBound; omega) ≠
            client.request then
        ⟨client, stats, some (.fail .eproto)⟩
      else
        let counted := recordLatency stats (doneNs - client.currentRequestStartNs)
        { client :=
            { client.removeMessage messageEnd (by
                have bounds := frame_length_bounds found
                simpa [Client.response] using bounds.2) with
              requestCompleted := client.requestCompleted + 1
              state := .done }
          stats := { counted with completed := counted.completed + 1 }
          exit := some .ok }

def onRecv (client : Client) (stats : Stats) (doneNs : UInt64) (result : RecvResult)
    (bounded : ∀ chunk, result = .ok chunk → chunk.length ≤ bufSize - client.recvLen) : Turn :=
  match result with
  | .ok chunk =>
      if chunk = [] then ⟨client, stats, some (.fail .econnreset)⟩
      else
        checkResponse (client.append chunk (bounded chunk rfl))
          { stats with bytesReceived := stats.bytesReceived + UInt64.ofNat chunk.length } doneNs
  | .error .eintr => ⟨client, stats, none⟩
  | .error .eagain => ⟨client, stats, some .ok⟩
  | .error reason => ⟨client, stats, some (.fail reason)⟩

def recvTurn (client : Client) (stats : Stats) (doneNs : UInt64) (ready : RecvResult) : Turn :=
  onRecv client stats doneNs (recv (bufSize - client.recvLen) ready) fun _ => recv_ok_length

def handleRecv (client : Client) (stats : Stats) (doneNs : UInt64) :
    List RecvResult → Option Handled
  | [] =>
      if bufSize ≤ client.recvLen then some ⟨client, stats, .fail .emsgsize⟩ else none
  | ready :: rest =>
      if bufSize ≤ client.recvLen then some ⟨client, stats, .fail .emsgsize⟩
      else
        let turn := recvTurn client stats doneNs ready
        match turn.exit with
        | none => handleRecv turn.client turn.stats doneNs rest
        | some exit => some ⟨turn.client, turn.stats, exit⟩

def closeClient (client : Client) : Client := { client with fd := -1, state := .done }

/-- `reset_client` clears the whole record, the `id` included. -/
def resetClient : Client := { Client.zeroed with fd := -1 }

/-- `connected` is the outcome of `connect_nonblock`. -/
def reconnectClient (connected : Except Errno Fd) : Client × Exit :=
  match connected with
  | .error reason => ({ resetClient with state := .failed }, .fail reason)
  | .ok fd => ({ resetClient with fd := fd, state := .connecting }, .ok)

structure PollEvents where
  pollin : Bool
  pollout : Bool
  pollerr : Bool
  pollhup : Bool
  pollnval : Bool
  deriving DecidableEq, Repr

def noEvents : PollEvents := ⟨false, false, false, false, false⟩

def requested (client : Client) : PollEvents :=
  if client.fd = -1 then noEvents
  else
    match client.state with
    | .connecting => ⟨false, true, true, true, false⟩
    | .writing => ⟨false, true, true, true, false⟩
    | .reading => ⟨true, false, true, true, false⟩
    | .done => noEvents
    | .failed => noEvents

structure Seat where
  client : Client
  nextSequence : UInt64
  stats : Stats

inductive Outcome where
  | finished
  | failed
  deriving DecidableEq, Repr

structure Served where
  seat : Seat
  outcome : Option Outcome

namespace Seat

def keep (seat : Seat) : Served := ⟨seat, none⟩

def fail (seat : Seat) : Served where
  seat :=
    { seat with
      client := closeClient seat.client
      stats := { seat.stats with failed := seat.stats.failed + 1 } }
  outcome := some .failed

def finish (seat : Seat) : Served where
  seat := { seat with client := closeClient seat.client }
  outcome := some .finished

def prepare (seat : Seat) (startNs : UInt64) : Served :=
  match prepareRequest seat.client seat.nextSequence startNs with
  | (client, none) =>
      keep { seat with client := client, nextSequence := seat.nextSequence + 1 }
  | (client, some _) => fail { seat with client := client }

def setUp (requests : UInt64) (startNs : UInt64) (seat : Seat) : Served :=
  if seat.client.fd = -1 then seat.keep
  else
    match seat.client.state with
    | .done => if seat.nextSequence < requests then seat.prepare startNs else seat.keep
    | _ => seat.keep

def afterHandler (seat : Seat) (handled : Handled) : Served :=
  match handled.exit with
  | .ok => keep { seat with client := handled.client, stats := handled.stats }
  | .fail _ => fail { seat with client := handled.client, stats := handled.stats }

structure Answers where
  soError : Except Errno (Option Errno)
  sends : List SendResult
  recvs : List RecvResult
  doneNs : UInt64
  startNs : UInt64

def sendStage (revents : PollEvents) (answers : Answers) (seat : Seat) : Option Served :=
  if seat.client.state = .writing ∧ revents.pollout = true then
    (handleSend seat.client seat.stats answers.sends).map seat.afterHandler
  else some seat.keep

def recvStage (revents : PollEvents) (answers : Answers) (seat : Seat) : Option Served :=
  if seat.client.state = .reading ∧ revents.pollin = true then
    (handleRecv seat.client seat.stats answers.doneNs answers.recvs).map seat.afterHandler
  else some seat.keep

def doneStage (requests startNs : UInt64) (seat : Seat) : Served :=
  if seat.client.state = .done then
    if seat.nextSequence < requests then seat.prepare startNs else seat.finish
  else seat.keep

/-- The rest of the body is skipped by `continue` when the client has been given up. -/
def andThen (served : Served) (rest : Seat → Option Served) : Option Served :=
  match served.outcome with
  | none => rest served.seat
  | some _ => some served

def serve (requests : UInt64) (revents : PollEvents) (answers : Answers) (seat : Seat) :
    Option Served :=
  if seat.client.fd = -1 then some seat.keep
  else if revents = noEvents then some seat.keep
  else if seat.client.state = .connecting then
    if revents.pollout || revents.pollerr || revents.pollhup then
      match handleConnect seat.client answers.soError with
      | (client, .ok) => some (prepare { seat with client := client } answers.startNs)
      | (client, .fail _) => some (fail { seat with client := client })
    else some seat.keep
  else if revents.pollerr || revents.pollhup || revents.pollnval then some seat.fail
  else
    (sendStage revents answers seat).bind fun sent =>
      andThen sent fun seat =>
        (recvStage revents answers seat).bind fun received =>
          andThen received fun seat => some (doneStage requests answers.startNs seat)

def connect (connected : Except Errno Fd) (seat : Seat) : Served :=
  match reconnectClient connected with
  | (client, .ok) => keep { seat with client := client }
  | (client, .fail _) =>
      { seat :=
          { seat with
            client := client
            stats := { seat.stats with failed := seat.stats.failed + 1 } }
        outcome := some .failed }

end Seat

inductive Phase where
  | starting
  | looping
  | left
  deriving DecidableEq, Repr

/-- `history` records the clients that were given up, in this order. -/
structure World (count : Nat) where
  phase : Phase
  clients : Fin count → Client
  nextSequence : Fin count → UInt64
  stats : Stats
  stopRequested : Bool
  history : List (Fin count × Outcome)

structure PassAnswers (count : Nat) where
  setUpNs : Fin count → UInt64
  poll : Except Errno (Fin count → PollEvents)
  client : Fin count → Seat.Answers
  interrupt : Bool

inductive Label (count : Nat) where
  | connect (connected : Fin count → Except Errno Fd) (interrupt : Bool)
  | pass (answers : PassAnswers count)

namespace World

variable {count : Nat}

def seat (world : World count) (index : Fin count) : Seat :=
  ⟨world.clients index, world.nextSequence index, world.stats⟩

def put (world : World count) (index : Fin count) (served : Served) : World count :=
  { world with
    clients := Function.update world.clients index served.seat.client
    nextSequence := Function.update world.nextSequence index served.seat.nextSequence
    stats := served.seat.stats
    history := world.history ++ served.outcome.toList.map fun outcome => (index, outcome) }

def forEach (body : Fin count → Seat → Option Served) :
    List (Fin count) → World count → Option (World count)
  | [], world => some world
  | index :: rest, world =>
      (body index (world.seat index)).bind fun served => forEach body rest (world.put index served)

def Running (world : World count) : Prop :=
  world.stopRequested = false ∧
    world.stats.completed + world.stats.failed < world.stats.totalRequests

instance (world : World count) : Decidable world.Running :=
  inferInstanceAs (Decidable (_ ∧ _))

def connectAll (connected : Fin count → Except Errno Fd) (world : World count) :
    Option (World count) :=
  forEach (fun index seat => some (seat.connect (connected index))) (List.finRange count) world

def setUpAll (requests : UInt64) (answers : PassAnswers count) (world : World count) :
    Option (World count) :=
  forEach (fun index seat => some (seat.setUp requests (answers.setUpNs index)))
    (List.finRange count) world

def serveAll (requests : UInt64) (answers : PassAnswers count) (revents : Fin count → PollEvents)
    (world : World count) : Option (World count) :=
  forEach (fun index seat => seat.serve requests (revents index) (answers.client index))
    (List.finRange count) world

def pass (requests : UInt64) (answers : PassAnswers count) (world : World count) :
    Option (World count) :=
  (world.setUpAll requests answers).bind fun ready =>
    match answers.poll with
    | .error .eintr => some ready
    | .error _ => some { ready with phase := .left }
    | .ok revents => ready.serveAll requests answers revents

def advance (requests : UInt64) (world : World count) : Label count → Option (World count)
  | .connect connected interrupt =>
      if world.phase = .starting then
        (world.connectAll connected).map fun opened =>
          { opened with phase := .looping, stopRequested := interrupt }
      else none
  | .pass answers =>
      if world.phase = .looping ∧ world.Running then
        (world.pass requests answers).map fun after =>
          { after with stopRequested := after.stopRequested || answers.interrupt }
      else none

def boot (count : Nat) (requests : UInt64) : World count where
  phase := .starting
  clients index := { Client.zeroed with fd := -1, id := Int32.ofNat index }
  nextSequence _ := 0
  stats := statsInit (UInt64.ofNat count * requests)
  stopRequested := false
  history := []

end World

def PollEvents.Within (revents events : PollEvents) : Prop :=
  (revents.pollin = true → events.pollin = true) ∧
    (revents.pollout = true → events.pollout = true)

instance (revents events : PollEvents) : Decidable (revents.Within events) :=
  inferInstanceAs (Decidable (_ ∧ _))

/-- `poll` reports what was asked for, errors unasked, and nothing for `fd == -1`. -/
def Honest {count : Nat} (world : World count) : Label count → Prop
  | .connect connected _ => ∀ index, ∀ fd ∈ (connected index).toOption, 0 ≤ fd
  | .pass answers =>
      ∀ revents ∈ answers.poll.toOption, ∀ index,
        (revents index).Within (requested (world.clients index)) ∧
          ((world.clients index).fd = -1 → revents index = noEvents)

def system (count : Nat) (requests : UInt64) : System (World count) (Label count) where
  init world := world = World.boot count requests
  step world label after := Honest world label ∧ world.advance requests label = some after

instance {count : Nat} (world : World count) : (label : Label count) →
    Decidable (Honest world label)
  | .connect _ _ => inferInstanceAs (Decidable (∀ _ : Fin count, _))
  | .pass answers => inferInstanceAs (Decidable (∀ revents ∈ answers.poll.toOption, _))

def next {count : Nat} (requests : UInt64) (world : World count) (label : Label count) :
    Option (World count) :=
  if Honest world label then world.advance requests label else none

theorem next_sound {count : Nat} (requests : UInt64) (world : World count) (label : Label count)
    (after : World count) (result : next requests world label = some after) :
    (system count requests).step world label after := by
  unfold next at result
  split_ifs at result with honest
  exact ⟨honest, result⟩

end LinuxSystemPrograms.StressClient
