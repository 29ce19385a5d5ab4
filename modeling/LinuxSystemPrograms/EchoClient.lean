import LinuxSystemPrograms.CharArray
import LinuxSystemPrograms.Framing
import LinuxSystemPrograms.Sockets

/-!
# The per-connection record of the line echo servers

The select, poll and epoll servers share one `Client` record and, up to return codes and
event registration, the bodies of `handle_recv` and `handle_send`. `Client.receive` and
`Client.flush` are these bodies; each server's module turns their exits into its own
return values.

`LineEcho` is what the record is for: the bytes of an unfinished line and the queue of
complete lines that still have to be sent. The record refines it (`receive_view`,
`flush_view`), so that proofs about runs speak about two byte lists and never about
cursors into arrays with stale contents.
-/

namespace LinuxSystemPrograms.EchoClient

open LinuxSystemPrograms.CharArray
open LinuxSystemPrograms.Framing
open LinuxSystemPrograms.Sockets

set_option autoImplicit false

def recvBufSize : Nat := 1024

def messageSize : Nat := 4096

def sendBufSize : Nat := 4096

/-- The C record together with the bounds of its cursors: every access below has to show
that it stays inside its buffer, and these bounds are what it shows it from. -/
structure Client where
  clientFd : Fd
  recvBuf : List.Vector Byte recvBufSize
  recvMessage : List.Vector Byte messageSize
  used : Nat
  sendBuf : List.Vector Byte sendBufSize
  sendLen : Nat
  sendOffset : Nat
  usedBound : used ≤ messageSize
  offsetBound : sendOffset ≤ sendLen
  lenBound : sendLen ≤ sendBufSize

inductive RecvExit where
  | drained
  | again
  | disconnected
  | recvError
  | messageTooLong
  | sendBufFull
  deriving DecidableEq, Repr

inductive SendExit where
  | idle
  | flushed
  | unfinished
  | again
  | sendZero
  | sendError
  deriving DecidableEq, Repr

/-- What the handlers add to a connection's log, and what an event loop that reacts to
`EPOLLRDHUP` knows when `handle_recv` has returned. -/
inductive Return where
  | ofRecv (exit : RecvExit) (ret : Int)
  | ofSend (exit : SendExit) (ret : Int)
  | ofEvent (rdhup : Bool) (exit : RecvExit)
  deriving DecidableEq, Repr

abbrev Event := ConnEvent Return

namespace Client

/-- `recv_message[0..used)`. -/
def part (client : Client) : List Byte :=
  slice client.recvMessage 0 client.used (by have := client.usedBound; omega)

/-- `send_buf[send_offset..send_len)`. -/
def queued (client : Client) : List Byte :=
  slice client.sendBuf client.sendOffset (client.sendLen - client.sendOffset)
    (by have := client.offsetBound; have := client.lenBound; omega)

/-- The scan of `recv_message` for a newline: `i + 1` for the first one. -/
def messageLength (client : Client) : Option Nat := frameLength newline client.part

theorem message_length_bounds {client : Client} {msgLen : Nat}
    (found : client.messageLength = some msgLen) : 0 < msgLen ∧ msgLen ≤ client.used := by
  have bounds := frame_length_bounds found
  simpa [part] using bounds

/-- The `memcpy` to the end of `send_buf` and the `memmove` that closes the gap. -/
def moveLine (client : Client) (msgLen : Nat) (inMessage : msgLen ≤ client.used)
    (fits : client.sendLen + msgLen ≤ sendBufSize) : Client :=
  { client with
    sendBuf := memcpy client.sendBuf client.sendLen
      (slice client.recvMessage 0 msgLen (by have := client.usedBound; omega))
      (by simpa using fits)
    sendLen := client.sendLen + msgLen
    recvMessage := memcpy client.recvMessage 0
      (slice client.recvMessage msgLen (client.used - msgLen)
        (by have := client.usedBound; omega))
      (by have := client.usedBound; simp only [slice_length]; omega)
    used := client.used - msgLen
    usedBound := by have := client.usedBound; omega
    offsetBound := by have := client.offsetBound; omega
    lenBound := fits }

def extractLines (client : Client) : Client × RecvExit :=
  match _found : client.messageLength with
  | none => (client, .drained)
  | some msgLen =>
      if fits : client.sendLen + msgLen ≤ sendBufSize then
        extractLines (client.moveLine msgLen (message_length_bounds _found).2 fits)
      else (client, .sendBufFull)
termination_by client.used
decreasing_by
  have bounds := message_length_bounds _found
  simp only [moveLine]
  omega

def fillRecvBuf (client : Client) (chunk : List Byte) (bounded : chunk.length ≤ recvBufSize) :
    Client :=
  { client with recvBuf := memcpy client.recvBuf 0 chunk (by omega) }

def appendMessage (client : Client) (count : Nat) (bounded : count ≤ recvBufSize)
    (fits : client.used + count ≤ messageSize) : Client :=
  { client with
    recvMessage := memcpy client.recvMessage client.used
      (slice client.recvBuf 0 count (by omega)) (by simpa using fits)
    used := client.used + count
    usedBound := fits }

/-- The body of `handle_recv` after the system call. -/
def onRecv (client : Client) (result : RecvResult)
    (bounded : ∀ chunk, result = .ok chunk → chunk.length ≤ recvBufSize) : Client × RecvExit :=
  match result with
  | .ok chunk =>
      if chunk = [] then (client, .disconnected)
      else if fits : client.used + chunk.length ≤ messageSize then
        extractLines ((client.fillRecvBuf chunk (bounded chunk rfl)).appendMessage chunk.length
          (bounded chunk rfl) fits)
      else (client.fillRecvBuf chunk (bounded chunk rfl), .messageTooLong)
  | .error .eagain => (client, .again)
  | .error _ => (client, .recvError)

/-- `handle_recv` up to its return value. `ready` is what the socket holds. -/
def receive (client : Client) (ready : RecvResult) : Client × RecvExit :=
  client.onRecv (recv recvBufSize ready) fun _ => recv_ok_length

/-- `send_offset += n`, and the reset of both cursors once everything is out. -/
def advance (client : Client) (count : Nat)
    (accepted : count ≤ client.sendLen - client.sendOffset) : Client × SendExit :=
  if client.sendLen = client.sendOffset + count then
    ({ client with
        sendLen := 0
        sendOffset := 0
        offsetBound := Nat.le_refl 0
        lenBound := Nat.zero_le _ }, .flushed)
  else
    ({ client with
        sendOffset := client.sendOffset + count
        offsetBound := by have := client.offsetBound; omega }, .unfinished)

def onSend (client : Client) (result : SendResult)
    (bounded : ∀ count, result = .ok count → count ≤ client.sendLen - client.sendOffset) :
    Client × SendExit :=
  match result with
  | .ok 0 => (client, .sendZero)
  | .ok (count + 1) => client.advance (count + 1) (bounded (count + 1) rfl)
  | .error .eagain => (client, .again)
  | .error .eintr => (client, .again)
  | .error _ => (client, .sendError)

def flush (client : Client) (room : SendResult) : Client × SendExit :=
  if client.sendLen = client.sendOffset then (client, .idle)
  else client.onSend (send (client.sendLen - client.sendOffset) room) fun _ => send_ok_le

end Client

/-- The purpose of the record: `part` is the unfinished line, `queued` the complete lines
not sent yet, `filled` how far `send_buf` has been written since it was last empty. -/
structure LineEcho where
  part : List Byte
  queued : List Byte
  filled : Nat

namespace LineEcho

def empty : LineEcho := ⟨[], [], 0⟩

/-- Takes a chunk in and queues every complete line while `send_buf` has room. -/
def takeIn (echo : LineEcho) (chunk : List Byte) : LineEcho where
  part := (drain newline (sendBufSize - echo.filled) (echo.part ++ chunk)).2
  queued := echo.queued ++ (drain newline (sendBufSize - echo.filled) (echo.part ++ chunk)).1
  filled := echo.filled +
    (drain newline (sendBufSize - echo.filled) (echo.part ++ chunk)).1.length

/-- A complete line is left over only when `send_buf` had no room for it. -/
def takeInExit (echo : LineEcho) (chunk : List Byte) : RecvExit :=
  if newline ∈ (echo.takeIn chunk).part then .sendBufFull else .drained

def receive (echo : LineEcho) : RecvResult → LineEcho × RecvExit
  | .ok chunk =>
      if chunk = [] then (echo, .disconnected)
      else if echo.part.length + chunk.length ≤ messageSize then
        (echo.takeIn chunk, echo.takeInExit chunk)
      else (echo, .messageTooLong)
  | .error .eagain => (echo, .again)
  | .error _ => (echo, .recvError)

def sendOut (echo : LineEcho) (count : Nat) : LineEcho :=
  if echo.queued.drop count = [] then { echo with queued := [], filled := 0 }
  else { echo with queued := echo.queued.drop count }

def flush (echo : LineEcho) (result : SendResult) : LineEcho × SendExit :=
  if echo.queued = [] then (echo, .idle)
  else
    match result with
    | .ok 0 => (echo, .sendZero)
    | .ok (count + 1) =>
        (echo.sendOut (count + 1),
          if echo.queued.drop (count + 1) = [] then .flushed else .unfinished)
    | .error .eagain => (echo, .again)
    | .error .eintr => (echo, .again)
    | .error _ => (echo, .sendError)

theorem flush_idle {echo : LineEcho} (idle : echo.queued = []) (result : SendResult) :
    echo.flush result = (echo, .idle) := by
  simp [flush, idle]

/-- `send_buf` is reset as soon as it is empty. -/
def Reset (echo : LineEcho) : Prop := echo.queued = [] → echo.filled = 0

end LineEcho

namespace Client

def view (client : Client) : LineEcho := ⟨client.part, client.queued, client.sendLen⟩

@[simp] theorem part_length (client : Client) : client.part.length = client.used :=
  slice_length _ _ _ _

@[simp] theorem queued_length (client : Client) :
    client.queued.length = client.sendLen - client.sendOffset :=
  slice_length _ _ _ _

theorem queued_eq_nil {client : Client} :
    client.queued = [] ↔ client.sendLen = client.sendOffset := by
  rw [← List.length_eq_zero_iff, queued_length]
  have := client.offsetBound
  omega

theorem queued_ne_nil {client : Client} :
    client.queued ≠ [] ↔ client.sendOffset < client.sendLen := by
  rw [ne_eq, queued_eq_nil]
  have := client.offsetBound
  omega

theorem move_line_part (client : Client) (msgLen : Nat) (inMessage : msgLen ≤ client.used)
    (fits : client.sendLen + msgLen ≤ sendBufSize) :
    (client.moveLine msgLen inMessage fits).part = client.part.drop msgLen := by
  have bound := client.usedBound
  have moved : slice client.recvMessage (0 + msgLen) (client.used - msgLen) (by omega) =
      client.part.drop msgLen := slice_drop client.recvMessage (by omega) (by omega)
  rw [← moved]
  unfold part moveLine
  simp only [Nat.zero_add]
  exact slice_memcpy_same _ _ _ (by simp)

theorem move_line_queued (client : Client) (msgLen : Nat) (inMessage : msgLen ≤ client.used)
    (fits : client.sendLen + msgLen ≤ sendBufSize) :
    (client.moveLine msgLen inMessage fits).queued =
      client.queued ++ client.part.take msgLen := by
  have bound := client.usedBound
  have ordered := client.offsetBound
  have line : slice client.recvMessage 0 msgLen (by omega) = client.part.take msgLen :=
    slice_take client.recvMessage (by omega) (by omega) inMessage
  rw [← line]
  unfold queued moveLine
  exact slice_memcpy_append client.sendBuf ordered (by simpa using fits) _
    (by simp only [slice_length]; omega)

/-- The extraction loop moves exactly the leading complete lines that fit. -/
theorem extract_lines_view (client : Client) :
    (extractLines client).1.view =
        ⟨(drain newline (sendBufSize - client.sendLen) client.part).2,
          client.queued ++ (drain newline (sendBufSize - client.sendLen) client.part).1,
          client.sendLen + (drain newline (sendBufSize - client.sendLen) client.part).1.length⟩ ∧
      (extractLines client).2 =
        (if newline ∈ (drain newline (sendBufSize - client.sendLen) client.part).2
          then .sendBufFull else .drained) ∧
      (extractLines client).1.clientFd = client.clientFd := by
  fun_induction extractLines client with
  | case1 client absent =>
      have noNewline := frame_length_none absent
      have stays : drain newline (sendBufSize - client.sendLen) client.part =
          ([], client.part) := drain_of_not_mem noNewline _
      simp [stays, view, noNewline]
  | case2 client msgLen found fits ih =>
      have bounds := message_length_bounds found
      have split : drain newline (sendBufSize - client.sendLen) client.part =
          (client.part.take msgLen ++
            (drain newline (sendBufSize - client.sendLen - msgLen)
              (client.part.drop msgLen)).1,
            (drain newline (sendBufSize - client.sendLen - msgLen)
              (client.part.drop msgLen)).2) := by
        rw [drain]
        split
        · rename_i absent
          simp [messageLength, absent] at found
        · rename_i length same
          have sameLength : length = msgLen := by
            rw [messageLength, same] at found
            exact Option.some.inj found
          subst sameLength
          rw [if_pos (by omega)]
      have room : sendBufSize - (client.sendLen + msgLen) =
          sendBufSize - client.sendLen - msgLen := by omega
      obtain ⟨viewEq, exitEq, fdEq⟩ := ih
      rw [move_line_part, move_line_queued] at viewEq
      rw [move_line_part] at exitEq
      have sendLenEq : (client.moveLine msgLen bounds.2 fits).sendLen =
          client.sendLen + msgLen := rfl
      rw [sendLenEq, room] at viewEq exitEq
      rw [split]
      refine ⟨?_, exitEq, fdEq⟩
      rw [viewEq]
      have taken : (client.part.take msgLen).length = msgLen := by
        simp only [List.length_take, part_length]
        omega
      simp only [List.append_assoc, List.length_append, taken, Nat.add_assoc]
  | case3 client msgLen found full =>
      have bounds := message_length_bounds found
      have stays : drain newline (sendBufSize - client.sendLen) client.part =
          ([], client.part) := drain_of_too_long found (by omega)
      have hasNewline : newline ∈ client.part := by
        by_contra absent
        rw [messageLength, frame_length_of_not_mem absent] at found
        cases found
      simp [stays, view, hasNewline]

theorem append_message_part (client : Client) (chunk : List Byte)
    (bounded : chunk.length ≤ recvBufSize) (fits : client.used + chunk.length ≤ messageSize) :
    ((client.fillRecvBuf chunk bounded).appendMessage chunk.length bounded fits).part =
      client.part ++ chunk := by
  have copied : slice (client.fillRecvBuf chunk bounded).recvBuf 0 chunk.length (by omega) =
      chunk := slice_memcpy_same _ (by omega) _ rfl
  unfold part appendMessage
  simp only [copied]
  exact slice_memcpy_append client.recvMessage (Nat.zero_le _) fits _
    (by simp only [fillRecvBuf]; omega)

theorem on_recv_view (client : Client) (result : RecvResult)
    (bounded : ∀ chunk, result = .ok chunk → chunk.length ≤ recvBufSize) :
    (client.onRecv result bounded).1.view = (client.view.receive result).1 ∧
      (client.onRecv result bounded).2 = (client.view.receive result).2 ∧
      (client.onRecv result bounded).1.clientFd = client.clientFd := by
  match result with
  | .ok chunk =>
      by_cases eof : chunk = []
      · simp [onRecv, LineEcho.receive, eof]
      · by_cases fits : client.used + chunk.length ≤ messageSize
        · have extracted := extract_lines_view
            ((client.fillRecvBuf chunk (bounded chunk rfl)).appendMessage chunk.length
              (bounded chunk rfl) fits)
          rw [append_message_part] at extracted
          simp only [onRecv, LineEcho.receive, eof, if_false, view, part_length, fits,
            dite_true, if_true, LineEcho.takeIn, LineEcho.takeInExit]
          exact extracted
        · simp only [onRecv, LineEcho.receive, eof, if_false, view, part_length, fits,
            dite_false]
          exact ⟨rfl, trivial, rfl⟩
  | .error reason => cases reason <;> exact ⟨rfl, rfl, rfl⟩

/-- `handle_recv` refines `LineEcho.receive`. -/
theorem receive_view (client : Client) (ready : RecvResult) :
    (client.receive ready).1.view = (client.view.receive (recv recvBufSize ready)).1 ∧
      (client.receive ready).2 = (client.view.receive (recv recvBufSize ready)).2 ∧
      (client.receive ready).1.clientFd = client.clientFd :=
  on_recv_view client _ _

theorem advance_view (client : Client) (count : Nat)
    (accepted : count ≤ client.sendLen - client.sendOffset) :
    (client.advance count accepted).1.view = client.view.sendOut count ∧
      (client.advance count accepted).2 =
        (if client.queued.drop count = [] then .flushed else .unfinished) ∧
      (client.advance count accepted).1.clientFd = client.clientFd := by
  have ordered := client.offsetBound
  have bound := client.lenBound
  by_cases done : client.sendLen = client.sendOffset + count
  · have emptied : client.queued.drop count = [] := by
      rw [List.drop_eq_nil_iff, queued_length]
      omega
    simp [advance, done, LineEcho.sendOut, view, queued, part]
  · have notEmptied : client.queued.drop count ≠ [] := by
      rw [ne_eq, List.drop_eq_nil_iff, queued_length]
      omega
    have rest : slice client.sendBuf (client.sendOffset + count)
        (client.sendLen - client.sendOffset - count) (by omega) = client.queued.drop count :=
      slice_drop client.sendBuf (by omega) (by omega)
    have lengths : client.sendLen - (client.sendOffset + count) =
        client.sendLen - client.sendOffset - count := by omega
    simp only [advance, done, if_false, LineEcho.sendOut, view, notEmptied, and_true]
    simp only [part, queued, lengths, rest]

theorem on_send_view (client : Client) (pending : client.view.queued ≠ [])
    (result : SendResult)
    (bounded : ∀ count, result = .ok count → count ≤ client.sendLen - client.sendOffset) :
    (client.onSend result bounded).1.view = (client.view.flush result).1 ∧
      (client.onSend result bounded).2 = (client.view.flush result).2 ∧
      (client.onSend result bounded).1.clientFd = client.clientFd := by
  match result with
  | .ok 0 => simp [onSend, LineEcho.flush, pending]
  | .ok (count + 1) =>
      simp only [LineEcho.flush, pending, if_false]
      exact advance_view client (count + 1) (bounded (count + 1) rfl)
  | .error reason => cases reason <;> simp [onSend, LineEcho.flush, pending]

/-- `handle_send` refines `LineEcho.flush`. -/
theorem flush_view (client : Client) (room : SendResult) :
    (client.flush room).1.view = (client.view.flush (send client.queued.length room)).1 ∧
      (client.flush room).2 = (client.view.flush (send client.queued.length room)).2 ∧
      (client.flush room).1.clientFd = client.clientFd := by
  unfold flush
  by_cases nothing : client.sendLen = client.sendOffset
  · have empty : client.view.queued = [] := queued_eq_nil.mpr nothing
    simp [nothing, LineEcho.flush, empty]
  · have pending : client.view.queued ≠ [] := fun empty => nothing (queued_eq_nil.mp empty)
    simp only [nothing, if_false, queued_length]
    exact on_send_view client pending _ _

end Client

namespace Client

def init : Client where
  clientFd := -1
  recvBuf := List.Vector.replicate recvBufSize 0
  recvMessage := List.Vector.replicate messageSize 0
  used := 0
  sendBuf := List.Vector.replicate sendBufSize 0
  sendLen := 0
  sendOffset := 0
  usedBound := Nat.zero_le _
  offsetBound := Nat.le_refl 0
  lenBound := Nat.zero_le _

/-- The assignments after `close`: the arrays keep what the connection left in them. -/
def reset (client : Client) : Client :=
  { client with
    clientFd := -1
    used := 0
    sendLen := 0
    sendOffset := 0
    usedBound := Nat.zero_le _
    offsetBound := Nat.le_refl 0
    lenBound := Nat.zero_le _ }

@[simp] theorem init_view : init.view = LineEcho.empty := by
  simp [view, init, part, queued, LineEcho.empty]

@[simp] theorem reset_view (client : Client) : client.reset.view = LineEcho.empty := by
  simp [view, reset, part, queued, LineEcho.empty]

end Client

namespace LineEcho

/-- Nothing is lost and nothing changes its place when a chunk is taken in. -/
theorem take_in_balance (echo : LineEcho) (chunk : List Byte) :
    (echo.takeIn chunk).queued ++ (echo.takeIn chunk).part =
      echo.queued ++ echo.part ++ chunk := by
  simp only [takeIn, List.append_assoc, drain_append]

theorem take_in_framed (echo : LineEcho) (chunk : List Byte) :
    ∃ moved, Framed newline moved ∧ (echo.takeIn chunk).queued = echo.queued ++ moved :=
  ⟨_, drain_framed _ _ _, rfl⟩

/-- Only what has already been queued can make `send_buf` overflow: starting from an
empty one, every line of `recv_message` fits. -/
theorem take_in_of_empty {echo : LineEcho} {chunk : List Byte} (fresh : echo.filled = 0)
    (fits : echo.part.length + chunk.length ≤ messageSize) :
    newline ∉ (echo.takeIn chunk).part := by
  apply drain_of_room
  simp only [List.length_append, fresh, sendBufSize, messageSize] at fits ⊢
  omega

theorem take_in_unfinished {echo : LineEcho} {chunk : List Byte}
    (absent : newline ∉ echo.part ++ chunk) :
    echo.takeIn chunk = { echo with part := echo.part ++ chunk } ∧
      echo.takeInExit chunk = .drained := by
  have kept : drain newline (sendBufSize - echo.filled) (echo.part ++ chunk) =
      ([], echo.part ++ chunk) := drain_of_not_mem absent _
  constructor
  · simp [takeIn, kept]
  · simp only [takeInExit, takeIn, kept]
    exact if_neg absent

/-- The chunk completes the only line, and `send_buf` has room for it. -/
theorem take_in_frame {echo : LineEcho} {chunk : List Byte}
    (frame : Frame newline (echo.part ++ chunk))
    (fits : (echo.part ++ chunk).length ≤ sendBufSize - echo.filled) :
    echo.takeIn chunk =
        ⟨[], echo.queued ++ (echo.part ++ chunk), echo.filled + (echo.part ++ chunk).length⟩ ∧
      echo.takeInExit chunk = .drained := by
  have moved : drain newline (sendBufSize - echo.filled) (echo.part ++ chunk) =
      (echo.part ++ chunk, []) := drain_frame frame fits
  constructor
  · simp only [takeIn, moved]
  · simp only [takeInExit, takeIn, moved]
    exact if_neg List.not_mem_nil

theorem take_in_reset {echo : LineEcho} (reset : echo.Reset) (chunk : List Byte) :
    (echo.takeIn chunk).Reset := by
  intro empty
  have parts := List.append_eq_nil_iff.mp empty
  have before := reset parts.1
  rw [takeIn, parts.2, before]
  rfl

theorem send_out_queued (echo : LineEcho) (count : Nat) :
    (echo.sendOut count).queued = echo.queued.drop count := by
  unfold sendOut
  split_ifs with done
  · exact done.symm
  · rfl

theorem send_out_part (echo : LineEcho) (count : Nat) : (echo.sendOut count).part = echo.part := by
  unfold sendOut
  split_ifs <;> rfl

theorem send_out_reset (echo : LineEcho) (count : Nat) : (echo.sendOut count).Reset := by
  intro empty
  rw [send_out_queued] at empty
  simp [sendOut, empty]

end LineEcho

end LinuxSystemPrograms.EchoClient
