import LinuxSystemPrograms.EchoBuffers
import LinuxSystemPrograms.SelectServerV2

/-!
# `handle_recv` of `tcp_select_server_v2.c` on the bare record

`Client` carries the bounds of its cursors, so its accesses cannot leave a buffer. Here
the record is the C struct with nothing promised about its cursors, each access is checked
when it is made, and the `while(1)` loop runs on fuel: a result means that the loop ended
and that no index left its buffer. From a record whose cursors are in bounds the result is
the one of `Client.receive`.
-/

namespace LinuxSystemPrograms.SelectServerV2Recv

open LinuxSystemPrograms.CharArray
open LinuxSystemPrograms.EchoClient
open LinuxSystemPrograms.Framing
open LinuxSystemPrograms.SelectServerV2
open LinuxSystemPrograms.Sockets

set_option autoImplicit false

structure Record where
  clientFd : Fd
  recvBuf : List.Vector Byte recvBufSize
  recvMessage : List.Vector Byte messageSize
  used : Nat
  sendBuf : List.Vector Byte sendBufSize
  sendLen : Nat
  sendOffset : Nat

namespace Record

/-- `recv_message[0..used)`. -/
def unparsed (c : Record) : List Byte := c.recvMessage.toList.take c.used

def written (c : Record) : List Byte := c.sendBuf.toList.take c.sendLen

/-- The `for` loop from `i` on: the length of the first line, if there is one. -/
def scan (c : Record) (i : Nat) : Option (Option Nat) :=
  if _more : i < c.used then
    (checkedCell c.recvMessage i).bind fun byte =>
      if byte = newline then some (some (i + 1)) else scan c (i + 1)
  else some none
termination_by c.used - i

def extract : Nat → Record → Option (Record × Int)
  | 0, _ => none
  | fuel + 1, c => do
      match ← c.scan 0 with
      | none => return (c, 0)
      | some msgLen =>
          if c.sendLen + msgLen > sendBufSize then return (c, -1)
          else
            let line ← checkedSlice c.recvMessage 0 msgLen
            let sendBuf ← checkedMemcpy c.sendBuf c.sendLen line
            let rest ← checkedSlice c.recvMessage msgLen (c.used - msgLen)
            let recvMessage ← checkedMemcpy c.recvMessage 0 rest
            extract fuel { c with
              sendBuf := sendBuf
              sendLen := c.sendLen + msgLen
              recvMessage := recvMessage
              used := c.used - msgLen }

def onRecv (fuel : Nat) (c : Record) : RecvResult → Option (Record × Int)
  | .ok chunk =>
      if chunk = [] then some (c, -1)
      else do
        let recvBuf ← checkedMemcpy c.recvBuf 0 chunk
        if c.used + chunk.length > messageSize then return ({ c with recvBuf := recvBuf }, -1)
        else
          let block ← checkedSlice recvBuf 0 chunk.length
          let recvMessage ← checkedMemcpy c.recvMessage c.used block
          extract fuel { c with
            recvBuf := recvBuf
            recvMessage := recvMessage
            used := c.used + chunk.length }
  | .error .eagain => some (c, 0)
  | .error _ => some (c, -1)

def handleRecv (fuel : Nat) (c : Record) (ready : RecvResult) : Option (Record × Int) :=
  c.onRecv fuel (recv recvBufSize ready)

end Record

def record (client : Client) : Record where
  clientFd := client.clientFd
  recvBuf := client.recvBuf
  recvMessage := client.recvMessage
  used := client.used
  sendBuf := client.sendBuf
  sendLen := client.sendLen
  sendOffset := client.sendOffset

theorem unparsed_record (client : Client) : (record client).unparsed = client.part :=
  (slice_front client.recvMessage _).symm

theorem written_record (client : Client) :
    (record client).written = EchoBuffers.written client :=
  (slice_front client.sendBuf _).symm

/-- The scan finds what is left of the first line behind `i`. -/
theorem scan_record (client : Client) (i : Nat) :
    (record client).scan i =
      some ((frameLength newline (client.part.drop i)).map (· + i)) := by
  fun_induction Record.scan (record client) i with
  | case1 i more ih =>
      have inside : 0 + client.used ≤ messageSize := by
        have bound := client.usedBound
        omega
      obtain ⟨byte, located, split⟩ := checked_cell_inside client.recvMessage inside more
      have read : checkedCell (record client).recvMessage i = some byte := located
      have front : client.part.drop i = byte :: client.part.drop (i + 1) := split
      rw [read, Option.bind_some, front, frame_length_cons]
      by_cases hit : byte = newline
      · simp only [hit, if_true, Option.map_some, Nat.add_comm]
      · simp only [hit, if_false, ih, Option.map_map]
        congr 2
        funext length
        simp only [Function.comp_apply]
        omega
  | case2 i done =>
      have nothing : client.part.drop i = [] := by
        rw [List.drop_eq_nil_iff, Client.part_length]
        exact Nat.le_of_not_lt done
      rw [nothing, frame_length_nil, Option.map_none]

theorem scan_message (client : Client) :
    (record client).scan 0 = some client.messageLength := by
  rw [scan_record, List.drop_zero]
  simp only [Client.messageLength, Nat.add_zero, Option.map_id']

/-- One turn with a line that fits is `moveLine`. -/
theorem extract_move {client : Client} {msgLen : Nat} (fuel : Nat)
    (found : client.messageLength = some msgLen)
    (fits : client.sendLen + msgLen ≤ sendBufSize) :
    (record client).extract (fuel + 1) =
      (record (client.moveLine msgLen (Client.message_length_bounds found).2 fits)).extract
        fuel := by
  have bounds := Client.message_length_bounds found
  have bound := client.usedBound
  have lineInside : 0 + msgLen ≤ messageSize := by omega
  have restInside : msgLen + (client.used - msgLen) ≤ messageSize := by omega
  have room : ¬ (record client).sendLen + msgLen > sendBufSize := Nat.not_lt.mpr fits
  have line : checkedSlice (record client).recvMessage 0 msgLen =
      some (slice client.recvMessage 0 msgLen lineInside) := checked_slice_inside _ _
  have rest : checkedSlice (record client).recvMessage msgLen ((record client).used - msgLen) =
      some (slice client.recvMessage msgLen (client.used - msgLen) restInside) :=
    checked_slice_inside _ _
  have copied : client.sendLen + (slice client.recvMessage 0 msgLen lineInside).length ≤
      sendBufSize := by rw [slice_length]; exact fits
  have shifted : 0 + (slice client.recvMessage msgLen (client.used - msgLen) restInside).length ≤
      messageSize := by rw [slice_length]; omega
  have toSend : checkedMemcpy (record client).sendBuf (record client).sendLen
      (slice client.recvMessage 0 msgLen lineInside) =
        some (memcpy client.sendBuf client.sendLen _ copied) := checked_memcpy_inside _ _
  have toFront : checkedMemcpy (record client).recvMessage 0
      (slice client.recvMessage msgLen (client.used - msgLen) restInside) =
        some (memcpy client.recvMessage 0 _ shifted) := checked_memcpy_inside _ _
  rw [Record.extract, scan_message, found]
  simp only [Option.bind_eq_bind, Option.bind_some, room, if_false, line, toSend, rest, toFront]
  rfl

/-- The loop ends within `used + 1` turns, and no index leaves its buffer. -/
theorem extract_record (client : Client) {fuel : Nat} (enough : client.used < fuel) :
    (record client).extract fuel =
      some (record (Client.extractLines client).1, recvCode (Client.extractLines client).2) := by
  fun_induction Client.extractLines client generalizing fuel with
  | case1 client absent =>
      obtain ⟨fuel, rfl⟩ := Nat.exists_eq_add_one_of_ne_zero (Nat.ne_zero_of_lt enough)
      rw [Record.extract, scan_message, absent]
      rfl
  | case2 client msgLen found fits ih =>
      obtain ⟨fuel, rfl⟩ := Nat.exists_eq_add_one_of_ne_zero (Nat.ne_zero_of_lt enough)
      have bounds := Client.message_length_bounds found
      rw [extract_move fuel found fits]
      apply ih
      simp only [Client.moveLine]
      omega
  | case3 client msgLen found full =>
      obtain ⟨fuel, rfl⟩ := Nat.exists_eq_add_one_of_ne_zero (Nat.ne_zero_of_lt enough)
      have tooLong : (record client).sendLen + msgLen > sendBufSize := Nat.lt_of_not_le full
      rw [Record.extract, scan_message, found]
      simp only [Option.bind_eq_bind, Option.bind_some, tooLong, if_true]
      rfl

theorem recv_buf_filled (client : Client) {chunk : List Byte}
    (bounded : chunk.length ≤ recvBufSize) :
    checkedMemcpy (record client).recvBuf 0 chunk =
      some (client.fillRecvBuf chunk bounded).recvBuf :=
  checked_memcpy_inside _ (by omega)

/-- The chunk goes through `recv_buf` to the end of `recv_message`. -/
theorem on_recv_chunk (client : Client) {chunk : List Byte} (fuel : Nat) (nonempty : chunk ≠ [])
    (bounded : chunk.length ≤ recvBufSize) (fits : client.used + chunk.length ≤ messageSize) :
    (record client).onRecv fuel (.ok chunk) =
      (record ((client.fillRecvBuf chunk bounded).appendMessage chunk.length bounded
        fits)).extract fuel := by
  have filled : 0 + chunk.length ≤ recvBufSize := by omega
  have room : ¬ (record client).used + chunk.length > messageSize := Nat.not_lt.mpr fits
  have read : checkedSlice (client.fillRecvBuf chunk bounded).recvBuf 0 chunk.length =
      some (slice (client.fillRecvBuf chunk bounded).recvBuf 0 chunk.length filled) :=
    checked_slice_inside _ _
  have copied : client.used + (slice (client.fillRecvBuf chunk bounded).recvBuf 0 chunk.length
      filled).length ≤ messageSize := by rw [slice_length]; exact fits
  have append : checkedMemcpy (record client).recvMessage (record client).used
      (slice (client.fillRecvBuf chunk bounded).recvBuf 0 chunk.length filled) =
        some (memcpy client.recvMessage client.used _ copied) := checked_memcpy_inside _ _
  simp only [Record.onRecv, nonempty, if_false, Option.bind_eq_bind, Option.bind_some,
    recv_buf_filled client bounded, room, read, append]
  rfl

theorem on_recv_too_long (client : Client) {chunk : List Byte} (fuel : Nat)
    (nonempty : chunk ≠ []) (bounded : chunk.length ≤ recvBufSize)
    (tooLong : messageSize < client.used + chunk.length) :
    (record client).onRecv fuel (.ok chunk) =
      some (record (client.fillRecvBuf chunk bounded), -1) := by
  have full : (record client).used + chunk.length > messageSize := tooLong
  simp only [Record.onRecv, nonempty, if_false, Option.bind_eq_bind, Option.bind_some,
    recv_buf_filled client bounded, full, if_true]
  rfl

theorem on_recv_record (client : Client) (result : RecvResult)
    (bounded : ∀ chunk, result = .ok chunk → chunk.length ≤ recvBufSize) {fuel : Nat}
    (enough : ∀ chunk, result = .ok chunk → client.used + chunk.length < fuel) :
    (record client).onRecv fuel result =
      some (record (client.onRecv result bounded).1,
        recvCode (client.onRecv result bounded).2) := by
  match result with
  | .ok chunk =>
      by_cases eof : chunk = []
      · simp only [Record.onRecv, Client.onRecv, eof, if_true]
        rfl
      · by_cases fits : client.used + chunk.length ≤ messageSize
        · rw [on_recv_chunk client fuel eof (bounded chunk rfl) fits, extract_record _ ?_]
          · simp only [Client.onRecv, eof, if_false, fits, dite_true]
          · exact enough chunk rfl
        · rw [on_recv_too_long client fuel eof (bounded chunk rfl) (Nat.lt_of_not_le fits)]
          simp only [Client.onRecv, eof, if_false, fits, dite_false]
          rfl
  | .error reason => cases reason <;> rfl

/-- `handle_recv` of the bare record is `handle_recv` of the `Client`. -/
theorem handle_recv_record (client : Client) (ready : RecvResult) {fuel : Nat}
    (enough : ∀ chunk, recv recvBufSize ready = .ok chunk → client.used + chunk.length < fuel) :
    (record client).handleRecv fuel ready =
      some (record (handleRecv client ready).1, (handleRecv client ready).2.1) :=
  on_recv_record client _ (fun _ => recv_ok_length) enough

/-! ## What it does -/

theorem extract_lines_offset (client : Client) :
    (Client.extractLines client).1.sendOffset = client.sendOffset := by
  fun_induction Client.extractLines client with
  | case1 client absent => rfl
  | case2 client msgLen found fits ih => exact ih
  | case3 client msgLen found full => rfl

/-- The chunk does not fit behind the unfinished line: nothing the cursors cover changes. -/
structure Refused (before after : Record) (ret : Int) : Prop where
  ret : ret = -1
  used : after.used = before.used
  unparsed : after.unparsed = before.unparsed
  sendLen : after.sendLen = before.sendLen
  written : after.written = before.written

/-- The bytes `moved` go from the front of `pending` to the end of `send_buf`. -/
structure Extracted (before : Record) (pending moved : List Byte) (after : Record) (ret : Int) :
    Prop where
  written : after.written = before.written ++ moved
  sendLen : after.sendLen = before.sendLen + moved.length
  unparsed : moved ++ after.unparsed = pending
  used : moved.length + after.used = pending.length
  lines : Framed newline moved
  fits : before.sendLen + moved.length ≤ sendBufSize
  longest : ∀ lines, Framed newline lines → lines <+: pending →
    before.sendLen + lines.length ≤ sendBufSize → lines <+: moved
  all : ret = 0 ↔ moved = complete newline pending
  newlineFree : ret = 0 → newline ∉ after.unparsed
  full : ret ≠ 0 → ret = -1 ∧ ∃ line tail, after.unparsed = line ++ tail ∧ Frame newline line ∧
    sendBufSize < before.sendLen + moved.length + line.length

theorem refused_of_too_long (client : Client) {chunk : List Byte} {fuel : Nat}
    (nonempty : chunk ≠ []) (bounded : chunk.length ≤ recvBufSize)
    (tooLong : messageSize < client.used + chunk.length) :
    ∃ after, (record client).onRecv fuel (.ok chunk) = some (after, -1) ∧
      after.sendOffset = client.sendOffset ∧ Refused (record client) after (-1) :=
  ⟨_, on_recv_too_long client fuel nonempty bounded tooLong, rfl, rfl, rfl, rfl, rfl, rfl⟩

/-- The loop splits `recv_message[0..used)` as `drain` does. -/
theorem extract_lines_drain (client : Client) :
    EchoBuffers.written (Client.extractLines client).1 =
        EchoBuffers.written client ++
          (drain newline (sendBufSize - client.sendLen) client.part).1 ∧
      (Client.extractLines client).1.sendLen =
        client.sendLen + (drain newline (sendBufSize - client.sendLen) client.part).1.length ∧
      (Client.extractLines client).1.part =
        (drain newline (sendBufSize - client.sendLen) client.part).2 := by
  have viewEq := (Client.extract_lines_view client).1
  obtain ⟨moved, writtenEq, queuedEq⟩ := EchoBuffers.extract_lines_written client
  have queues : client.queued ++ moved =
      client.queued ++ (drain newline (sendBufSize - client.sendLen) client.part).1 := by
    rw [← queuedEq]
    exact congrArg LineEcho.queued viewEq
  refine ⟨?_, congrArg LineEcho.filled viewEq, congrArg LineEcho.part viewEq⟩
  rw [writtenEq, List.append_cancel_left queues]

theorem extract_lines_code (client : Client) :
    recvCode (Client.extractLines client).2 =
      if newline ∈ (drain newline (sendBufSize - client.sendLen) client.part).2 then -1 else 0 := by
  rw [(Client.extract_lines_view client).2.1]
  split_ifs
  · rfl
  · rfl

/-- The loop from a record whose `send_buf` is the one of `before`. -/
theorem extracted_of_lines (client : Client) {before : Record}
    (sameWritten : before.written = EchoBuffers.written client)
    (sameLen : before.sendLen = client.sendLen) :
    Extracted before client.part (drain newline (sendBufSize - client.sendLen) client.part).1
      (record (Client.extractLines client).1) (recvCode (Client.extractLines client).2) := by
  obtain ⟨writtenEq, sendLenEq, partEq⟩ := extract_lines_drain client
  have codeEq := extract_lines_code client
  have lenBound := client.lenBound
  have split := drain_append newline (sendBufSize - client.sendLen) client.part
  have framed := drain_framed newline (sendBufSize - client.sendLen) client.part
  have short := drain_length_le newline (sendBufSize - client.sendLen) client.part
  have zero : recvCode (Client.extractLines client).2 = 0 ↔
      newline ∉ (drain newline (sendBufSize - client.sendLen) client.part).2 := by
    rw [codeEq]
    by_cases left : newline ∈ (drain newline (sendBufSize - client.sendLen) client.part).2
    · simp [left]
    · simp [left]
  have restEq : (record (Client.extractLines client).1).unparsed =
      (drain newline (sendBufSize - client.sendLen) client.part).2 := by
    rw [unparsed_record, partEq]
  constructor
  case written => rw [written_record, writtenEq, sameWritten]
  case sendLen =>
    rw [sameLen]
    exact sendLenEq
  case unparsed => rw [restEq, split]
  case used =>
    have restLength := congrArg List.length partEq
    rw [Client.part_length] at restLength
    have lengths := congrArg List.length split
    rw [List.length_append, ← restLength] at lengths
    exact lengths
  case lines => exact framed
  case fits =>
    rw [sameLen]
    omega
  case longest =>
    intro lines linesFramed isPrefix linesFit
    rw [sameLen] at linesFit
    exact drain_longest linesFramed isPrefix (by omega)
  case all =>
    rw [zero]
    constructor
    · intro absent
      nth_rewrite 2 [← split]
      exact (complete_append_unfinished framed absent).symm
    · intro same
      rw [drain_finishes_iff, ← same]
      exact short
  case newlineFree =>
    intro drained
    rw [restEq]
    exact zero.mp drained
  case full =>
    intro failed
    have left : newline ∈ (drain newline (sendBufSize - client.sendLen) client.part).2 :=
      not_not.mp fun absent => failed (zero.mpr absent)
    rcases drain_stops newline (sendBufSize - client.sendLen) client.part with
      absent | ⟨length, found, overflow⟩
    · exact absurd left absent
    · obtain ⟨body, absent, lengthEq, restSplit⟩ := frame_length_some found
      refine ⟨?_, body ++ [newline], _, restEq.trans restSplit, ⟨body, absent, rfl⟩, ?_⟩
      · rw [codeEq, if_pos left]
      · rw [sameLen, List.length_append, List.length_singleton, ← lengthEq]
        omega

theorem extracted_of_fits (client : Client) {chunk : List Byte} {fuel : Nat}
    (nonempty : chunk ≠ []) (bounded : chunk.length ≤ recvBufSize)
    (fits : client.used + chunk.length ≤ messageSize)
    (enough : client.used + chunk.length < fuel) :
    ∃ after ret moved, (record client).onRecv fuel (.ok chunk) = some (after, ret) ∧
      after.sendOffset = client.sendOffset ∧
      Extracted (record client) ((record client).unparsed ++ chunk) moved after ret := by
  have run := on_recv_chunk client fuel nonempty bounded fits
  rw [extract_record _ enough] at run
  have extracted := extracted_of_lines
    ((client.fillRecvBuf chunk bounded).appendMessage chunk.length bounded fits)
    (written_record client) rfl
  rw [Client.append_message_part, ← unparsed_record] at extracted
  exact ⟨_, _, _, run, extract_lines_offset _, extracted⟩

def Record.client (c : Record) (usedBound : c.used ≤ messageSize)
    (offsetBound : c.sendOffset ≤ c.sendLen) (lenBound : c.sendLen ≤ sendBufSize) : Client :=
  { c with
    usedBound := usedBound
    offsetBound := offsetBound
    lenBound := lenBound }

/-- The effect of `handle_recv` on a received chunk. It needs no more than cursors in bounds:
`recv_message[0..used)` may hold newlines. -/
theorem handle_recv_exact (before : Record) (chunk : List Byte) (fuel : Nat)
    (usedBound : before.used ≤ messageSize) (offsetBound : before.sendOffset ≤ before.sendLen)
    (lenBound : before.sendLen ≤ sendBufSize) (nonempty : 1 ≤ chunk.length)
    (bounded : chunk.length ≤ recvBufSize) (enough : before.used + chunk.length < fuel) :
    ∃ after ret, before.handleRecv fuel (.ok chunk) = some (after, ret) ∧
      after.sendOffset = before.sendOffset ∧
      (messageSize < before.used + chunk.length → Refused before after ret) ∧
      (before.used + chunk.length ≤ messageSize →
        ∃ moved, Extracted before (before.unparsed ++ chunk) moved after ret) := by
  have call : before.handleRecv fuel (.ok chunk) = before.onRecv fuel (.ok chunk) := by
    have whole : recv recvBufSize (.ok chunk) = .ok chunk :=
      congrArg Except.ok (List.take_of_length_le bounded)
    rw [Record.handleRecv, whole]
  have present : chunk ≠ [] := List.ne_nil_of_length_pos nonempty
  rw [call]
  rcases Nat.lt_or_ge messageSize (before.used + chunk.length) with tooLong | fits
  · obtain ⟨after, run, offset, refused⟩ := refused_of_too_long
      (before.client usedBound offsetBound lenBound) present bounded tooLong
    exact ⟨after, -1, run, offset, fun _ => refused, fun fits => absurd fits (by omega)⟩
  · obtain ⟨after, ret, moved, run, offset, extracted⟩ := extracted_of_fits
      (before.client usedBound offsetBound lenBound) present bounded fits enough
    exact ⟨after, ret, run, offset, fun tooLong => absurd tooLong (by omega),
      fun _ => ⟨moved, extracted⟩⟩

/-- Two bytes wait for their newline and `send_buf` has room for exactly three. -/
def exactFit : Record where
  clientFd := 5
  recvBuf := List.Vector.replicate recvBufSize 0
  recvMessage := List.Vector.replicate messageSize 65
  used := 2
  sendBuf := List.Vector.replicate sendBufSize 66
  sendLen := 4093
  sendOffset := 4000

theorem handle_recv_exact_fit :
    ∃ after ret, exactFit.handleRecv 4 (.ok [newline]) = some (after, ret) ∧
      after.sendOffset = 4000 ∧
      ∃ moved, Extracted exactFit (exactFit.unparsed ++ [newline]) moved after ret := by
  obtain ⟨after, ret, run, offset, _, extracted⟩ := handle_recv_exact exactFit [newline] 4
    (by decide) (by decide) (by decide) (by decide) (by decide) (by decide)
  exact ⟨after, ret, run, offset, extracted (by decide)⟩

end LinuxSystemPrograms.SelectServerV2Recv
