import LinuxSystemPrograms.StressClientSituations
import LinuxSystemPrograms.StressEcho

/-!
# The stress client's handlers when nothing fails for good

What one run through the loops of `handle_send` and `handle_recv` does when `send` accepts
something or fails with `EAGAIN` or `EINTR`, and `recv` likewise.
-/

namespace LinuxSystemPrograms.StressEchoTurns

open LinuxSystemPrograms.CharArray
open LinuxSystemPrograms.ConnectionAccount
open LinuxSystemPrograms.EchoClient (sendBufSize)
open LinuxSystemPrograms.Framing
open LinuxSystemPrograms.Sockets
open LinuxSystemPrograms.StressClient
open LinuxSystemPrograms.StressClientHandlers
open LinuxSystemPrograms.StressEcho

set_option autoImplicit false

theorem payload_frame (id : Int32) (sequence : UInt64) : Frame newline (payload id sequence) := by
  refine ⟨[98, 101, 110, 99, 104, 45] ++ Decimal.ofInt id.toInt ++ [45] ++
    Decimal.ofNat sequence.toNat, ?_, rfl⟩
  intro member
  have newlineValue : newline.toNat = 10 := rfl
  simp only [List.mem_append] at member
  rcases member with ((word | inId) | dash) | inSequence
  · exact absurd word (by decide)
  · have printable := Decimal.of_int_printable inId
    omega
  · exact absurd dash (by decide)
  · have digit := Decimal.of_nat_digits inSequence
    omega

theorem payload_short (id : Int32) (sequence : UInt64) :
    (payload id sequence).length ≤ sendBufSize :=
  Nat.le_trans (payload_length_le id sequence) (by decide)

theorem request_length (client : Client) : client.request.length = client.sendLen :=
  slice_length _ _ _ _

theorem response_length (client : Client) : client.response.length = client.recvLen :=
  slice_length _ _ _ _

theorem unsent_eq (client : Client) : client.unsent = client.request.drop client.sendOffset := by
  simp only [Client.unsent, Client.request, slice, List.drop_zero, List.drop_take]

theorem append_response (client : Client) (chunk : List Byte)
    (fits : chunk.length ≤ bufSize - client.recvLen) :
    (client.append chunk fits).response = client.response ++ chunk := by
  have bound := client.recvBound
  exact slice_memcpy_append client.recvBuf (Nat.zero_le _) (by omega) _
    (by simp only [Client.append]; omega)

theorem on_send_accepted (client : Client) (stats : Stats) {count : Nat} (positive : 0 < count)
    (bounded : ∀ accepted, (.ok count : SendResult) = .ok accepted →
      accepted ≤ client.sendLen - client.sendOffset) :
    (onSend client stats (.ok count) bounded).client = client.advance count (bounded count rfl) ∧
      (onSend client stats (.ok count) bounded).exit = none := by
  cases count with
  | zero => exact absurd positive (Nat.lt_irrefl 0)
  | succ count => exact ⟨rfl, rfl⟩

/-- A `send` that accepts something. -/
theorem send_turn_granted {client : Client} (stats : Stats) {free : Nat} (some : 0 < free)
    (pending : client.sendOffset < client.sendLen) :
    ∃ count within, 0 < count ∧
      acceptedOf client.unsent (send (client.sendLen - client.sendOffset) (.ok free)) =
        client.unsent.take count ∧
      (sendTurn client stats (.ok free)).client = client.advance count within ∧
      (sendTurn client stats (.ok free)).exit = none := by
  have positive : 0 < min free (client.sendLen - client.sendOffset) := by omega
  exact ⟨min free (client.sendLen - client.sendOffset), Nat.min_le_right _ _, positive, rfl,
    on_send_accepted client stats positive _⟩

/-- A `send` that fails with nothing but `EAGAIN` or `EINTR`. -/
theorem send_turn_honest {client : Client} (stats : Stats) {room : SendResult}
    (accepts : Accepts room) (pending : client.sendOffset < client.sendLen) :
    (∃ count within,
        acceptedOf client.unsent (send (client.sendLen - client.sendOffset) room) =
          client.unsent.take count ∧
        (sendTurn client stats room).client = client.advance count within ∧
        (sendTurn client stats room).exit = none) ∨
      (acceptedOf client.unsent (send (client.sendLen - client.sendOffset) room) = [] ∧
        (sendTurn client stats room).client = client ∧
        ((sendTurn client stats room).exit = none ∨
          (sendTurn client stats room).exit = some .ok)) := by
  cases room with
  | error reason =>
      right
      refine ⟨rfl, ?_⟩
      rcases List.mem_pair.mp accepts with rfl | rfl
      · exact ⟨rfl, Or.inr rfl⟩
      · exact ⟨rfl, Or.inl rfl⟩
  | ok free =>
      left
      obtain ⟨count, within, _, granted⟩ := send_turn_granted stats accepts pending
      exact ⟨count, within, granted⟩

theorem check_response_waits {client : Client} (stats : Stats) (doneNs : UInt64)
    (absent : newline ∉ client.response) :
    checkResponse client stats doneNs = ⟨client, stats, none⟩ := by
  unfold checkResponse
  split
  · rfl
  · rename_i messageEnd found
    rw [frame_length_of_not_mem absent] at found
    cases found

/-- What `handle_recv` has done to the record when it returns with the request completed. -/
structure Validated (before : Client) (turn : Turn) : Prop where
  exit : turn.exit = some .ok
  state : turn.client.state = .done
  fd : turn.client.fd = before.fd
  id : turn.client.id = before.id
  completed : turn.client.requestCompleted = before.requestCompleted + 1

/-- The first line of the response is compared with the request, whatever lies behind it. -/
theorem check_response_cases (client : Client) (stats : Stats) (doneNs : UInt64) :
    (newline ∉ client.response ∧ checkResponse client stats doneNs = ⟨client, stats, none⟩) ∨
      ∃ line tail, Frame newline line ∧ client.response = line ++ tail ∧
        ((line ≠ client.request ∧
            checkResponse client stats doneNs = ⟨client, stats, some (.fail .eproto)⟩) ∨
          (line = client.request ∧ Validated client (checkResponse client stats doneNs))) := by
  unfold checkResponse
  split
  · rename_i absent
    exact Or.inl ⟨frame_length_none absent, rfl⟩
  · rename_i messageEnd found
    right
    obtain ⟨body, noNewline, lengthEq, split⟩ := frame_length_some found
    have bounds := frame_length_bounds found
    have lineLength : (body ++ [newline]).length = messageEnd := by simp [lengthEq]
    have inside : messageEnd ≤ client.recvLen := by
      rw [← response_length]
      exact bounds.2
    have compared : messageEnd = client.sendLen →
        slice client.recvBuf 0 client.sendLen (by have := client.lenBound; omega) =
          body ++ [newline] := by
      intro sameLength
      have line : slice client.recvBuf 0 messageEnd (by have := client.recvBound; omega) =
          client.response.take messageEnd :=
        slice_take client.recvBuf (by have := client.recvBound; omega) _ inside
      have taken : client.response.take messageEnd = body ++ [newline] := by
        rw [split, List.take_left' lineLength]
      rw [← taken, ← line]
      simp only [slice, sameLength]
    refine ⟨body ++ [newline], client.response.drop messageEnd, ⟨body, noNewline, rfl⟩, split, ?_⟩
    split_ifs with mismatch
    · left
      refine ⟨fun same => ?_, rfl⟩
      have sameLength : messageEnd = client.sendLen := by
        rw [← lineLength, same, request_length]
      exact mismatch.elim (fun other => other sameLength)
        fun other => other ((compared sameLength).trans same)
    · right
      rw [not_or, not_not, not_not] at mismatch
      constructor
      · rw [← compared mismatch.1, mismatch.2]
      · exact
          { exit := rfl
            state := rfl
            fd := (remove_message_fields client _ _).1
            id := (remove_message_fields client _ _).2
            completed := rfl }

theorem check_response_validates {client : Client} (stats : Stats) (doneNs : UInt64)
    (frame : Frame newline client.request) (echoed : client.response = client.request) :
    Validated client (checkResponse client stats doneNs) := by
  rcases check_response_cases client stats doneNs with
    ⟨absent, _⟩ | ⟨line, tail, ⟨body, _, rfl⟩, split, outcome⟩
  · obtain ⟨body, _, same⟩ := frame
    rw [echoed, same] at absent
    simp at absent
  · have whole := (frame_prefix_complete frame (split.symm.trans echoed) (by simp)).1
    exact (outcome.resolve_left fun mismatch => mismatch.1 whole).2

/-- The answers of a `recv` that does not fail for good. -/
theorem delivers_cases {channel : List Byte} {closed : Bool} {errors : List Errno}
    {ready : RecvResult} (delivers : Delivers channel closed errors ready) {room : Nat}
    (space : 0 < room) :
    (∃ chunk rest, chunk ≠ [] ∧ channel = chunk ++ rest ∧ recv room ready = .ok chunk) ∨
      (closed = true ∧ channel = [] ∧ recv room ready = .ok []) ∨
      ∃ reason ∈ errors, recv room ready = .error reason := by
  cases ready with
  | error reason => exact Or.inr (Or.inr ⟨reason, delivers, rfl⟩)
  | ok bytes =>
      obtain ⟨⟨rest, split⟩, eof⟩ := delivers
      by_cases empty : bytes = []
      · obtain ⟨nothing, peerClosed⟩ := eof empty
        refine Or.inr (Or.inl ⟨peerClosed, nothing, ?_⟩)
        rw [empty]
        exact congrArg Except.ok List.take_nil
      · refine Or.inl ⟨bytes.take room, bytes.drop room ++ rest, ?_, ?_, rfl⟩
        · simp only [ne_eq, List.take_eq_nil_iff, empty, or_false]
          omega
        · rw [← split, ← List.append_assoc, List.take_append_drop]

theorem recv_turn_chunk {client : Client} (stats : Stats) (doneNs : UInt64) {ready : RecvResult}
    {chunk : List Byte} (nonempty : chunk ≠ [])
    (result : recv (bufSize - client.recvLen) ready = .ok chunk) :
    ∃ fits changed, recvTurn client stats doneNs ready =
      checkResponse (client.append chunk fits) changed doneNs := by
  unfold recvTurn
  generalize_proofs bounded
  revert bounded
  rw [result]
  intro bounded
  exact ⟨bounded chunk rfl,
    { stats with bytesReceived := stats.bytesReceived + UInt64.ofNat chunk.length },
    if_neg nonempty⟩

theorem recv_turn_error {client : Client} (stats : Stats) (doneNs : UInt64) {ready : RecvResult}
    {reason : Errno} (expected : reason ∈ [Errno.eagain, Errno.eintr])
    (result : recv (bufSize - client.recvLen) ready = .error reason) :
    (recvTurn client stats doneNs ready).client = client ∧
      ((recvTurn client stats doneNs ready).exit = none ∨
        (recvTurn client stats doneNs ready).exit = some .ok) := by
  unfold recvTurn
  generalize_proofs bounded
  revert bounded
  rw [result]
  intro bounded
  rcases List.mem_pair.mp expected with rfl | rfl
  · exact ⟨rfl, Or.inr rfl⟩
  · exact ⟨rfl, Or.inl rfl⟩

end LinuxSystemPrograms.StressEchoTurns
