import LinuxSystemPrograms.StressClientIdentity

/-!
# The byte counters and the samples of the stress client

`charge` is what the handlers do to the statistics. `Ledger` compares a client with the
bytes that were received for it: each answered request has brought its own length at least,
and no request more than the buffer holds.
-/

namespace LinuxSystemPrograms.StressClientBytes

open LinuxSystemPrograms.CharArray
open LinuxSystemPrograms.FiniteSums
open LinuxSystemPrograms.Framing
open LinuxSystemPrograms.Sockets
open LinuxSystemPrograms.StressClient
open LinuxSystemPrograms.StressClientAccounting
open LinuxSystemPrograms.StressClientHandlers
open LinuxSystemPrograms.StressClientIdentity
open LinuxSystemPrograms.StressClientSituations
open LinuxSystemPrograms.StressEchoCompletion
open LinuxSystemPrograms.StressEchoTurns
open LinuxSystemPrograms.Transition

set_option autoImplicit false

/-! ## The statistics after the handlers -/

def charge (stats : Stats) (sent received : Nat) (sample : Option UInt64) : Stats :=
  let counted := { stats with
    bytesSent := stats.bytesSent + UInt64.ofNat sent
    bytesReceived := stats.bytesReceived + UInt64.ofNat received }
  match sample with
  | none => counted
  | some latencyNs =>
      { recordLatency counted latencyNs with completed := counted.completed + 1 }

theorem no_bytes (bytes : UInt64) : bytes + UInt64.ofNat 0 = bytes := UInt64.add_zero bytes

theorem charge_nothing (stats : Stats) : charge stats 0 0 none = stats := by
  simp only [charge, no_bytes]

theorem charge_sent (stats : Stats) (sent : Nat) :
    charge stats sent 0 none =
      { stats with bytesSent := stats.bytesSent + UInt64.ofNat sent } := by
  simp only [charge, no_bytes]

theorem charge_received (stats : Stats) (received : Nat) :
    charge stats 0 received none =
      { stats with bytesReceived := stats.bytesReceived + UInt64.ofNat received } := by
  simp only [charge, no_bytes]

theorem charge_sample (stats : Stats) (latencyNs : UInt64) :
    charge stats 0 0 (some latencyNs) =
      { recordLatency stats latencyNs with completed := stats.completed + 1 } := by
  simp only [charge, no_bytes]

theorem charge_charge (stats : Stats) (sent moreSent received moreReceived : Nat)
    (sample : Option UInt64) :
    charge (charge stats sent received none) moreSent moreReceived sample =
      charge stats (sent + moreSent) (received + moreReceived) sample := by
  simp only [charge, UInt64.ofNat_add, UInt64.add_assoc]

structure Sends (client : Client) (stats : Stats) (after : Client) (afterStats : Stats)
    (sent : Nat) : Prop where
  stats : afterStats = charge stats sent 0 none
  sendOffset : after.sendOffset = client.sendOffset + sent
  sendLen : after.sendLen = client.sendLen

theorem sends_nothing (client : Client) (stats : Stats) : Sends client stats client stats 0 :=
  ⟨(charge_nothing stats).symm, rfl, rfl⟩

theorem Sends.trans {client middle after : Client} {stats middleStats afterStats : Stats}
    {sent more : Nat} (first : Sends client stats middle middleStats sent)
    (second : Sends middle middleStats after afterStats more) :
    Sends client stats after afterStats (sent + more) where
  stats := by rw [second.stats, first.stats, charge_charge]
  sendOffset := by rw [second.sendOffset, first.sendOffset, Nat.add_assoc]
  sendLen := second.sendLen.trans first.sendLen

theorem send_turn_sends (client : Client) (stats : Stats) (room : SendResult) :
    ∃ sent, Sends client stats (sendTurn client stats room).client
      (sendTurn client stats room).stats sent := by
  unfold sendTurn onSend
  split
  · exact ⟨0, sends_nothing client stats⟩
  · exact ⟨_, (charge_sent stats _).symm, rfl, rfl⟩
  · exact ⟨0, sends_nothing client stats⟩
  · exact ⟨0, sends_nothing client stats⟩
  · exact ⟨0, sends_nothing client stats⟩

theorem handle_send_sends {client : Client} {stats : Stats} {answers : List SendResult}
    {handled : Handled} (result : handleSend client stats answers = some handled) :
    ∃ sent, Sends client stats handled.client handled.stats sent := by
  induction answers generalizing client stats with
  | nil =>
      unfold handleSend at result
      split_ifs at result
      cases result
      exact ⟨0, (charge_nothing stats).symm, rfl, rfl⟩
  | cons room rest ih =>
      unfold handleSend at result
      split_ifs at result
      · obtain ⟨sent, turn⟩ := send_turn_sends client stats room
        dsimp only at result
        split at result
        · obtain ⟨more, later⟩ := ih result
          exact ⟨sent + more, turn.trans later⟩
        · cases result
          exact ⟨sent, turn⟩
      · cases result
        exact ⟨0, (charge_nothing stats).symm, rfl, rfl⟩

/-- `handle_recv` has returned before the response was complete, or found it wrong. -/
structure Collects (client : Client) (stats : Stats) (after : Client) (afterStats : Stats)
    (received : Nat) : Prop where
  stats : afterStats = charge stats 0 received none
  recvLen : after.recvLen = client.recvLen + received
  request : after.sendOffset = client.sendOffset ∧ after.sendLen = client.sendLen
  completed : after.requestCompleted = client.requestCompleted
  state : after.state = client.state
  fd : after.fd = client.fd

/-- The response was right. What was received behind it is still in the buffer. -/
structure Answered (client : Client) (stats : Stats) (after : Client) (afterStats : Stats)
    (received : Nat) : Prop where
  stats : ∃ latencyNs, afterStats = charge stats 0 received (some latencyNs)
  recvLen : client.recvLen + received = client.sendLen + after.recvLen
  inside : client.recvLen + received ≤ bufSize
  sendOffset : after.sendOffset = client.sendOffset
  completed : after.requestCompleted = client.requestCompleted + 1
  state : after.state = .done
  fd : after.fd = client.fd

theorem collects_nothing (client : Client) (stats : Stats) :
    Collects client stats client stats 0 :=
  ⟨(charge_nothing stats).symm, rfl, ⟨rfl, rfl⟩, rfl, rfl, rfl⟩

theorem append_collects (client : Client) (stats : Stats) (chunk : List Byte)
    (fits : chunk.length ≤ bufSize - client.recvLen) :
    Collects client stats (client.append chunk fits)
      { stats with bytesReceived := stats.bytesReceived + UInt64.ofNat chunk.length }
      chunk.length where
  stats := (charge_received stats chunk.length).symm
  recvLen := rfl
  request := ⟨rfl, rfl⟩
  completed := rfl
  state := rfl
  fd := rfl

section Trans

variable {client middle after : Client} {stats middleStats afterStats : Stats}
  {received more : Nat}

theorem Collects.trans (first : Collects client stats middle middleStats received)
    (second : Collects middle middleStats after afterStats more) :
    Collects client stats after afterStats (received + more) where
  stats := by rw [second.stats, first.stats, charge_charge]
  recvLen := by rw [second.recvLen, first.recvLen, Nat.add_assoc]
  request := ⟨second.request.1.trans first.request.1, second.request.2.trans first.request.2⟩
  completed := second.completed.trans first.completed
  state := second.state.trans first.state
  fd := second.fd.trans first.fd

theorem Collects.answered (first : Collects client stats middle middleStats received)
    (second : Answered middle middleStats after afterStats more) :
    Answered client stats after afterStats (received + more) where
  stats := by
    obtain ⟨latencyNs, later⟩ := second.stats
    exact ⟨latencyNs, by rw [later, first.stats, charge_charge]⟩
  recvLen := by
    have whole := second.recvLen
    rw [first.recvLen, first.request.2] at whole
    omega
  inside := by
    have whole := second.inside
    rw [first.recvLen] at whole
    omega
  sendOffset := second.sendOffset.trans first.request.1
  completed := by rw [second.completed, first.completed]
  state := second.state
  fd := second.fd.trans first.fd

end Trans

theorem remove_message_recv_len (client : Client) {messageEnd : Nat}
    (bound : messageEnd ≤ client.recvLen) :
    messageEnd + (client.removeMessage messageEnd bound).recvLen = client.recvLen ∧
      (client.removeMessage messageEnd bound).sendOffset = client.sendOffset := by
  unfold Client.removeMessage
  split_ifs with more
  · exact ⟨by simp only; omega, rfl⟩
  · exact ⟨by simp only; omega, rfl⟩

/-- The end of a turn of `handle_recv`: the request is still open, or it is completed. -/
def Turned (client : Client) (stats : Stats) (turn : Turn) (received : Nat) : Prop :=
  Collects client stats turn.client turn.stats received ∨
    (turn.exit = some .ok ∧ Answered client stats turn.client turn.stats received)

theorem check_response_turned {client middle : Client} {stats middleStats : Stats}
    {received : Nat} (first : Collects client stats middle middleStats received)
    (doneNs : UInt64) :
    Turned client stats (checkResponse middle middleStats doneNs) received := by
  unfold checkResponse
  split
  · exact Or.inl first
  · rename_i messageEnd found
    split_ifs with mismatch
    · exact Or.inl first
    · have inside : messageEnd ≤ middle.recvLen := by
        simpa [Client.response] using (frame_length_bounds found).2
      have length : messageEnd = middle.sendLen :=
        Classical.not_not.mp fun other => mismatch (Or.inl other)
      obtain ⟨left, offset⟩ := remove_message_recv_len middle inside
      refine Or.inr ⟨rfl, @Collects.answered _ _ _ _ _ _ received 0 first ?_⟩
      exact
        { stats := ⟨_, (charge_sample middleStats _).symm⟩
          recvLen := by
            rw [← length]
            exact left.symm
          inside := middle.recvBound
          sendOffset := offset
          completed := rfl
          state := rfl
          fd := (remove_message_fields middle _ _).1 }

theorem recv_turn_turned (client : Client) (stats : Stats) (doneNs : UInt64)
    (ready : RecvResult) :
    ∃ received, Turned client stats (recvTurn client stats doneNs ready) received := by
  have stays := collects_nothing client stats
  unfold recvTurn onRecv
  split
  · split_ifs with eof
    · exact ⟨0, Or.inl stays⟩
    · exact ⟨_, check_response_turned (append_collects client stats _ _) doneNs⟩
  · exact ⟨0, Or.inl stays⟩
  · exact ⟨0, Or.inl stays⟩
  · exact ⟨0, Or.inl stays⟩

theorem handle_recv_turned {client : Client} {stats : Stats} {doneNs : UInt64}
    {answers : List RecvResult} {handled : Handled}
    (result : handleRecv client stats doneNs answers = some handled) :
    ∃ received, Collects client stats handled.client handled.stats received ∨
      (handled.exit = .ok ∧ Answered client stats handled.client handled.stats received) := by
  induction answers generalizing client stats with
  | nil =>
      unfold handleRecv at result
      split_ifs at result
      cases result
      exact ⟨0, Or.inl (collects_nothing client stats)⟩
  | cons ready rest ih =>
      unfold handleRecv at result
      split_ifs at result
      · cases result
        exact ⟨0, Or.inl (collects_nothing client stats)⟩
      · obtain ⟨received, turned⟩ := recv_turn_turned client stats doneNs ready
        dsimp only at result
        split at result
        · rename_i goesOn
          rcases turned with collects | ⟨returned, _⟩
          · obtain ⟨more, later⟩ := ih result
            refine ⟨received + more, ?_⟩
            rcases later with waits | ⟨ok, answered⟩
            · exact Or.inl (collects.trans waits)
            · exact Or.inr ⟨ok, collects.answered answered⟩
          · rw [goesOn] at returned
            cases returned
        · rename_i exit exited
          cases result
          refine ⟨received, ?_⟩
          rcases turned with collects | ⟨returned, answered⟩
          · exact Or.inl collects
          · rw [exited, Option.some.injEq] at returned
            exact Or.inr ⟨returned, answered⟩

/-! ## One client -/

/-- The length of the first requests of a client; `reset_client` has cleared its id. -/
def requestBytes (requests : Nat) : Nat :=
  ∑ sequence ∈ Finset.range requests, (payload 0 (UInt64.ofNat sequence)).length

theorem request_bytes_succ (requests : Nat) :
    requestBytes (requests + 1) =
      requestBytes requests + (payload 0 (UInt64.ofNat requests)).length :=
  Finset.sum_range_succ _ requests

theorem request_bytes_le (requests : Nat) : requestBytes requests ≤ bufSize * requests := by
  induction requests with
  | zero => exact Nat.zero_le _
  | succ requests ih =>
      have short := payload_length_le 0 (UInt64.ofNat requests)
      rw [request_bytes_succ, Nat.mul_succ]
      simp only [bufSize] at ih ⊢
      omega

/-- The requests before the present one, and what was sent of that. -/
def sentBy (client : Client) (nextSequence : UInt64) : Nat :=
  requestBytes (nextSequence.toNat - 1) + client.sendOffset

structure Ledger (requests : UInt64) (client : Client) (nextSequence : UInt64)
    (received : Nat) : Prop where
  started : client.requestCompleted.toNat ≤ nextSequence.toNat
  bound : nextSequence.toNat ≤ requests.toNat
  sentLeast : requestBytes client.requestCompleted.toNat ≤ sentBy client nextSequence
  sentMost : sentBy client nextSequence ≤ requestBytes nextSequence.toNat
  receivedLeast : requestBytes client.requestCompleted.toNat + client.recvLen ≤ received
  receivedMost : received ≤ bufSize * nextSequence.toNat
  collected : client.fd ≠ -1 →
    received ≤ bufSize * client.requestCompleted.toNat + client.recvLen

/-- What serving a client adds to its ledger and to the statistics. -/
structure Bills (requests : UInt64) (before after : Seat) (earlier sent received : Nat)
    (sample : Option UInt64) : Prop where
  ledger : Ledger requests after.client after.nextSequence (earlier + received)
  sends : sentBy after.client after.nextSequence =
    sentBy before.client before.nextSequence + sent
  counts : after.client.requestCompleted.toNat =
    before.client.requestCompleted.toNat + sample.toList.length
  stats : after.stats =
    { charge before.stats sent received sample with failed := after.stats.failed }

section Bills

variable {requests : UInt64} {before after : Seat} {earlier sent received : Nat}
  {sample : Option UInt64}

theorem bills_nothing (ledger : Ledger requests before.client before.nextSequence earlier) :
    Bills requests before before earlier 0 0 none where
  ledger := ledger
  sends := rfl
  counts := rfl
  stats := by rw [charge_nothing]

theorem Ledger.close {client : Client} {nextSequence : UInt64}
    (ledger : Ledger requests client nextSequence earlier) :
    Ledger requests (closeClient client) nextSequence earlier where
  started := ledger.started
  bound := ledger.bound
  sentLeast := ledger.sentLeast
  sentMost := ledger.sentMost
  receivedLeast := ledger.receivedLeast
  receivedMost := ledger.receivedMost
  collected isOpen := absurd rfl isOpen

theorem Bills.fail (bills : Bills requests before after earlier sent received sample) :
    Bills requests before after.fail.seat earlier sent received sample where
  ledger := bills.ledger.close
  sends := bills.sends
  counts := bills.counts
  stats := by
    have same := bills.stats
    simp only [Seat.fail]
    rw [same]

theorem Bills.finish (bills : Bills requests before after earlier sent received sample) :
    Bills requests before after.finish.seat earlier sent received sample where
  ledger := bills.ledger.close
  sends := bills.sends
  counts := bills.counts
  stats := bills.stats

theorem successor_to_nat {sequence : UInt64} (room : sequence.toNat < requests.toNat) :
    (sequence + 1).toNat = sequence.toNat + 1 := by
  have upper := UInt64.toNat_lt requests
  rw [UInt64.toNat_add, UInt64.toNat_one]
  omega

/-- With every request answered the cursor of the last one stands at its end. -/
theorem Ledger.sent_all {client : Client} {nextSequence : UInt64}
    (ledger : Ledger requests client nextSequence earlier)
    (settled : client.requestCompleted = nextSequence) :
    sentBy client nextSequence = requestBytes nextSequence.toNat := by
  have least := ledger.sentLeast
  rw [settled] at least
  exact Nat.le_antisymm ledger.sentMost least

theorem Bills.prepare (bills : Bills requests before after earlier sent received sample)
    (settled : after.client.requestCompleted = after.nextSequence)
    (room : after.nextSequence.toNat < requests.toNat) (startNs : UInt64) :
    Bills requests before (after.prepare startNs).seat earlier sent received sample := by
  obtain ⟨client, result, prepared⟩ :=
    prepare_request_ok after.client after.nextSequence startNs
  have next := successor_to_nat room
  have ledger := bills.ledger
  have completed : client.requestCompleted = after.nextSequence :=
    prepared.completed.trans settled
  have cursor : sentBy client (after.nextSequence + 1) =
      requestBytes after.nextSequence.toNat := by
    rw [sentBy, next, prepared.offset]
    rfl
  have most := ledger.receivedMost
  have least := ledger.receivedLeast
  rw [settled] at least
  unfold Seat.prepare
  rw [result]
  constructor
  · constructor
    · simp only [completed, next, Seat.keep]
      omega
    · simp only [next, Seat.keep]
      omega
    · simp only [completed, cursor, Seat.keep, Nat.le_refl]
    · simp only [cursor, next, Seat.keep, request_bytes_succ]
      omega
    · simp only [completed, prepared.recvLen, Seat.keep]
      omega
    · simp only [next, Seat.keep, Nat.mul_succ]
      omega
    · intro _
      simp only [completed, prepared.recvLen, Seat.keep]
      exact most
  · simp only [Seat.keep]
    rw [cursor, ← ledger.sent_all settled]
    exact bills.sends
  · simp only [prepared.completed, Seat.keep]
    exact bills.counts
  · exact bills.stats

end Bills

/-- The request under way has the length that `prepare_request` gave it. -/
theorem send_len_of_kept {requests : UInt64} {seat : Seat} (kept : Kept 0 seat)
    (isOpen : seat.client.fd ≠ -1)
    (underWay : seat.client.state = .writing ∨ seat.client.state = .reading)
    (inFlight : InFlight requests seat.client seat.nextSequence) :
    requestBytes (seat.nextSequence.toNat - 1) + seat.client.sendLen =
      requestBytes seat.nextSequence.toNat := by
  have text := congrArg List.length ((kept isOpen).request underWay)
  rw [Client.request, slice_length] at text
  have next := inFlight.next
  have sequence : UInt64.ofNat (seat.nextSequence.toNat - 1) = seat.nextSequence - 1 := by
    apply UInt64.toNat_inj.mp
    have upper := UInt64.toNat_lt seat.nextSequence
    have positive : (1 : UInt64) ≤ seat.nextSequence := by
      rw [UInt64.le_iff_toNat_le, UInt64.toNat_one]
      omega
    rw [UInt64.toNat_sub_of_le _ _ positive, UInt64.toNat_one, UInt64.toNat_ofNat']
    omega
  have whole := request_bytes_succ (seat.nextSequence.toNat - 1)
  rw [Nat.sub_add_cancel (by omega), sequence, ← text] at whole
  exact whole.symm

section Stages

variable {requests : UInt64} {seat : Seat} {earlier : Nat} {handled : Handled}

theorem sends_bills {sent : Nat}
    (ledger : Ledger requests seat.client seat.nextSequence earlier)
    (whole : requestBytes (seat.nextSequence.toNat - 1) + seat.client.sendLen =
      requestBytes seat.nextSequence.toNat)
    (sends : Sends seat.client seat.stats handled.client handled.stats sent)
    (keeps : KeepsResponse seat.client handled.client) :
    Bills requests seat { seat with client := handled.client, stats := handled.stats } earlier
      sent 0 none := by
  have cursor : sentBy handled.client seat.nextSequence =
      sentBy seat.client seat.nextSequence + sent := by
    rw [sentBy, sends.sendOffset, sentBy, Nat.add_assoc]
  have inside := handled.client.offsetBound
  rw [sends.sendLen] at inside
  have least := ledger.sentLeast
  constructor
  · constructor
    · simp only [keeps.completed]
      exact ledger.started
    · exact ledger.bound
    · simp only [keeps.completed, cursor]
      omega
    · simp only [sentBy]
      omega
    · simp only [keeps.completed, keeps.recvLen]
      exact ledger.receivedLeast
    · exact ledger.receivedMost
    · intro isOpen
      simp only [keeps.fd] at isOpen
      simp only [keeps.completed, keeps.recvLen]
      exact ledger.collected isOpen
  · exact cursor
  · simp only [keeps.completed]
    rfl
  · simp only [sends.stats]

theorem collects_bills {received : Nat}
    (ledger : Ledger requests seat.client seat.nextSequence earlier)
    (isOpen : seat.client.fd ≠ -1) (inFlight : InFlight requests seat.client seat.nextSequence)
    (collects : Collects seat.client seat.stats handled.client handled.stats received) :
    Bills requests seat { seat with client := handled.client, stats := handled.stats } earlier
      0 received none := by
  have cursor : sentBy handled.client seat.nextSequence =
      sentBy seat.client seat.nextSequence := by
    rw [sentBy, collects.request.1, sentBy]
  have least := ledger.receivedLeast
  have collected := ledger.collected isOpen
  have inside := handled.client.recvBound
  have next := inFlight.next
  rw [collects.recvLen] at inside
  constructor
  · constructor
    · simp only [collects.completed]
      exact ledger.started
    · exact ledger.bound
    · simp only [collects.completed, cursor]
      exact ledger.sentLeast
    · simp only [cursor]
      exact ledger.sentMost
    · simp only [collects.completed, collects.recvLen]
      omega
    · simp only [next, Nat.mul_succ]
      omega
    · intro _
      simp only [collects.completed, collects.recvLen]
      omega
  · exact cursor
  · simp only [collects.completed]
    rfl
  · simp only [collects.stats]

theorem answered_bills {received : Nat}
    (ledger : Ledger requests seat.client seat.nextSequence earlier)
    (isOpen : seat.client.fd ≠ -1) (inFlight : InFlight requests seat.client seat.nextSequence)
    (whole : requestBytes (seat.nextSequence.toNat - 1) + seat.client.sendLen =
      requestBytes seat.nextSequence.toNat)
    (requestSent : seat.client.sendOffset = seat.client.sendLen)
    (answered : Answered seat.client seat.stats handled.client handled.stats received) :
    handled.client.requestCompleted = seat.nextSequence ∧ ∃ latencyNs,
      Bills requests seat { seat with client := handled.client, stats := handled.stats } earlier
        0 received (some latencyNs) := by
  have next := inFlight.next
  have bound := inFlight.bound
  have completed : handled.client.requestCompleted = seat.nextSequence := by
    apply UInt64.toNat_inj.mp
    have room : seat.client.requestCompleted.toNat < requests.toNat := by omega
    rw [answered.completed, successor_to_nat room, next]
  have cursor : sentBy handled.client seat.nextSequence =
      requestBytes seat.nextSequence.toNat := by
    rw [sentBy, answered.sendOffset, requestSent, whole]
  have before : sentBy seat.client seat.nextSequence = requestBytes seat.nextSequence.toNat := by
    rw [sentBy, requestSent, whole]
  have least := ledger.receivedLeast
  have collected := ledger.collected isOpen
  have arrived := answered.recvLen
  have inside := answered.inside
  rw [next, Nat.add_sub_cancel] at whole
  have most : earlier + received ≤ bufSize * seat.nextSequence.toNat := by
    rw [next, Nat.mul_succ]
    omega
  obtain ⟨latencyNs, counted⟩ := answered.stats
  refine ⟨completed, latencyNs, ?_, ?_, ?_, ?_⟩
  · constructor
    · simp only [completed, Nat.le_refl]
    · exact ledger.bound
    · simp only [completed, cursor, Nat.le_refl]
    · simp only [cursor, Nat.le_refl]
    · simp only [completed, next]
      omega
    · exact most
    · intro _
      simp only [completed]
      omega
  · simp only [cursor, before, Nat.add_zero]
  · simp only [completed, next]
    rfl
  · simp only [counted]

end Stages

section Serve

variable {requests : UInt64} {seat : Seat} {earlier : Nat} {revents : PollEvents}
  {answers : Seat.Answers} {served : Served}

theorem serve_connecting_bills (positive : 0 < requests.toNat)
    (situated : InSituation requests seat.client seat.nextSequence .connecting)
    (ledger : Ledger requests seat.client seat.nextSequence earlier)
    (result : seat.serve requests revents answers = some served) :
    Bills requests seat served.seat earlier 0 0 none := by
  obtain ⟨isOpen, connecting, next, completed⟩ := situated
  have stays : Bills requests seat seat earlier 0 0 none := bills_nothing ledger
  unfold Seat.serve at result
  rw [if_neg isOpen] at result
  split_ifs at result
  · cases result
    exact stays
  · unfold handleConnect at result
    cases verified : verifyConnection answers.soError with
    | ok =>
        rw [verified] at result
        cases result
        -- `handle_connect` has set the state, which the ledger does not look at
        have verifiedBills : Bills requests seat
            { seat with client := { seat.client with state := .writing } } earlier 0 0 none :=
          { ledger :=
              { started := ledger.started
                bound := ledger.bound
                sentLeast := ledger.sentLeast
                sentMost := ledger.sentMost
                receivedLeast := ledger.receivedLeast
                receivedMost := ledger.receivedMost
                collected := ledger.collected }
            sends := rfl
            counts := rfl
            stats := stays.stats }
        apply verifiedBills.prepare
        · exact completed.trans next.symm
        · simp only [next, UInt64.toNat_zero]
          exact positive
    | fail reason =>
        rw [verified] at result
        cases result
        exact stays.fail
  · cases result
    exact stays

theorem serve_writing_bills
    (situated : InSituation requests seat.client seat.nextSequence .writing) (kept : Kept 0 seat)
    (ledger : Ledger requests seat.client seat.nextSequence earlier)
    (within : revents.Within (requested seat.client))
    (result : seat.serve requests revents answers = some served) :
    ∃ sent, Bills requests seat served.seat earlier sent 0 none := by
  obtain ⟨isOpen, writing, _, _, inFlight⟩ := situated
  have stays : Bills requests seat seat earlier 0 0 none := bills_nothing ledger
  have whole := send_len_of_kept kept isOpen (Or.inl writing) inFlight
  have noInput := no_pollin within (by simp [writing])
  have notConnecting : seat.client.state ≠ .connecting := by simp [writing]
  unfold Seat.serve at result
  rw [if_neg isOpen, if_neg notConnecting] at result
  split_ifs at result
  · cases result
    exact ⟨0, stays⟩
  · cases result
    exact ⟨0, stays.fail⟩
  · unfold Seat.sendStage at result
    split_ifs at result
    · rw [Option.bind_eq_some_iff] at result
      obtain ⟨_, stage, rest⟩ := result
      obtain ⟨handled, sends, rfl⟩ := Option.map_eq_some_iff.mp stage
      obtain ⟨keeps, _, exits⟩ := handle_send_spec sends
      obtain ⟨sent, moved⟩ := handle_send_sends sends
      have bills := sends_bills ledger whole moved keeps
      refine ⟨sent, ?_⟩
      by_cases exit : handled.exit = .ok
      · have notDone : handled.client.state ≠ .done := by
          rcases exits exit with ⟨reading, _⟩ | ⟨same, _⟩
          · simp [reading]
          · simp [same, writing]
        rw [after_handler_ok exit, and_then_keep, tail_without_pollin noInput notDone] at rest
        cases rest
        exact bills
      · rw [after_handler_fail exit, and_then_fail] at rest
        cases rest
        exact bills.fail
    · rw [Option.bind_some, and_then_keep,
        tail_without_pollin noInput (by simp [writing])] at result
      cases result
      exact ⟨0, stays⟩

theorem serve_reading_bills
    (situated : InSituation requests seat.client seat.nextSequence .reading) (kept : Kept 0 seat)
    (ledger : Ledger requests seat.client seat.nextSequence earlier)
    (result : seat.serve requests revents answers = some served) :
    ∃ received sample, Bills requests seat served.seat earlier 0 received sample := by
  obtain ⟨isOpen, reading, requestSent, _, _, inFlight⟩ := situated
  have stays : Bills requests seat seat earlier 0 0 none := bills_nothing ledger
  have whole := send_len_of_kept kept isOpen (Or.inr reading) inFlight
  have notConnecting : seat.client.state ≠ .connecting := by simp [reading]
  unfold Seat.serve at result
  rw [if_neg isOpen, if_neg notConnecting] at result
  split_ifs at result
  · cases result
    exact ⟨0, none, stays⟩
  · cases result
    exact ⟨0, none, stays.fail⟩
  · rw [send_stage_reading reading, Option.bind_some, and_then_keep] at result
    cases input : revents.pollin with
    | false =>
        rw [tail_without_pollin input (by simp [reading])] at result
        cases result
        exact ⟨0, none, stays⟩
    | true =>
        unfold Seat.recvStage at result
        rw [if_pos ⟨reading, input⟩, Option.bind_eq_some_iff] at result
        obtain ⟨_, stage, rest⟩ := result
        obtain ⟨handled, receives, rfl⟩ := Option.map_eq_some_iff.mp stage
        obtain ⟨received, turned⟩ := handle_recv_turned receives
        rcases turned with collects | ⟨exit, answered⟩
        · have bills := collects_bills ledger isOpen inFlight collects
          refine ⟨received, none, ?_⟩
          by_cases exit : handled.exit = .ok
          · rw [after_handler_ok exit, and_then_keep, Option.some.injEq] at rest
            rw [← rest, Seat.doneStage, if_neg (by simp [collects.state, reading])]
            exact bills
          · rw [after_handler_fail exit, and_then_fail, Option.some.injEq] at rest
            rw [← rest]
            exact bills.fail
        · obtain ⟨completed, latencyNs, bills⟩ :=
            answered_bills ledger isOpen inFlight whole requestSent answered
          refine ⟨received, some latencyNs, ?_⟩
          rw [after_handler_ok exit, and_then_keep, Option.some.injEq] at rest
          rw [← rest, Seat.doneStage, if_pos answered.state]
          split_ifs with more
          · exact bills.prepare completed (UInt64.lt_iff_toNat_lt.mp more) answers.startNs
          · exact bills.finish

theorem serve_bills {situation : Situation} (positive : 0 < requests.toNat)
    (situated : InSituation requests seat.client seat.nextSequence situation)
    (kept : Kept 0 seat) (ledger : Ledger requests seat.client seat.nextSequence earlier)
    (within : revents.Within (requested seat.client))
    (result : seat.serve requests revents answers = some served) :
    ∃ sent received sample, Bills requests seat served.seat earlier sent received sample := by
  cases situation with
  | closed =>
      have closed : seat.client.fd = -1 := situated
      unfold Seat.serve at result
      rw [if_pos closed] at result
      cases result
      exact ⟨0, 0, none, bills_nothing ledger⟩
  | connecting => exact ⟨0, 0, none, serve_connecting_bills positive situated ledger result⟩
  | writing =>
      obtain ⟨sent, bills⟩ := serve_writing_bills situated kept ledger within result
      exact ⟨sent, 0, none, bills⟩
  | reading =>
      obtain ⟨received, sample, bills⟩ := serve_reading_bills situated kept ledger result
      exact ⟨0, received, sample, bills⟩

end Serve

/-! ## Whole runs -/

/-- The array holds the first samples. -/
theorem record_take {Sample : Type*} (samples : List Sample) (sample : Sample)
    (capacity : Nat) :
    (if (samples.take capacity).length < capacity then samples.take capacity ++ [sample]
      else samples.take capacity) = (samples ++ [sample]).take capacity := by
  rw [List.length_take, List.take_append]
  split_ifs with room
  · rw [List.take_of_length_le (l := [sample]) (by simp; omega)]
  · rw [show capacity - samples.length = 0 by omega, List.take_zero, List.append_nil]

structure Sampled (stats : Stats) (samples : List UInt64) : Prop where
  completed : stats.completed = UInt64.ofNat samples.length
  sum : stats.latencySumNs.toNat = (samples.map UInt64.toNat).sum % 2 ^ 64
  latencies : stats.latencies = samples.take stats.latencyCapacity

theorem Sampled.charges {stats : Stats} {samples : List UInt64} (sampled : Sampled stats samples)
    (sent received : Nat) (sample : Option UInt64) (failed : UInt64) :
    Sampled { charge stats sent received sample with failed := failed }
      (samples ++ sample.toList) := by
  cases sample with
  | none =>
      rw [Option.toList_none, List.append_nil]
      exact ⟨sampled.completed, sampled.sum, sampled.latencies⟩
  | some latencyNs =>
      constructor
      · simp only [charge, recordLatency, sampled.completed, Option.toList_some,
          List.length_append, List.length_singleton, UInt64.ofNat_add]
        rfl
      · simp only [charge, recordLatency, UInt64.toNat_add, sampled.sum, Option.toList_some,
          List.map_append, List.map_singleton, List.sum_append, List.sum_singleton,
          Nat.mod_add_mod]
      · simp only [charge, recordLatency, sampled.latencies, Option.toList_some]
        exact record_take samples latencyNs stats.latencyCapacity

theorem charge_bytes (stats : Stats) (sent received : Nat) (sample : Option UInt64) :
    (charge stats sent received sample).bytesSent = stats.bytesSent + UInt64.ofNat sent ∧
      (charge stats sent received sample).bytesReceived =
        stats.bytesReceived + UInt64.ofNat received := by
  cases sample <;> exact ⟨rfl, rfl⟩

variable {count : Nat}

/-- The statistics are what the ledgers and the samples add up to. -/
structure Billed (requests : UInt64) (world : World count) (received : Fin count → Nat)
    (samples : List UInt64) : Prop where
  ledger : ∀ index,
    Ledger requests (world.clients index) (world.nextSequence index) (received index)
  kept : ∀ index, Kept 0 (world.seat index)
  bytesSent : world.stats.bytesSent =
    UInt64.ofNat (∑ index, sentBy (world.clients index) (world.nextSequence index))
  bytesReceived : world.stats.bytesReceived = UInt64.ofNat (∑ index, received index)
  counted : samples.length = ∑ index, completedBy world index
  sampled : Sampled world.stats samples

theorem boot_billed (requests : UInt64) :
    Billed requests (World.boot count requests) (fun _ => 0) [] where
  ledger _ :=
    { started := Nat.zero_le _
      bound := Nat.zero_le _
      sentLeast := Nat.zero_le _
      sentMost := Nat.le_refl 0
      receivedLeast := Nat.le_refl 0
      receivedMost := Nat.zero_le _
      collected := fun isOpen => absurd rfl isOpen }
  kept _ isOpen := absurd rfl isOpen
  bytesSent := by
    have nothing : ∀ index, sentBy ((World.boot count requests).clients index)
        ((World.boot count requests).nextSequence index) = 0 := fun _ => rfl
    simp only [nothing, Finset.sum_const_zero]
    rfl
  bytesReceived := by
    rw [Finset.sum_const_zero]
    rfl
  counted := by
    have nothing : ∀ index, completedBy (World.boot count requests) index = 0 := fun _ => rfl
    simp only [nothing, Finset.sum_const_zero, List.length_nil]
  sampled := ⟨rfl, rfl, List.take_nil.symm⟩

/-- One client has been served. -/
theorem put_billed {requests : UInt64} {world : World count} {received : Fin count → Nat}
    {samples : List UInt64} {index : Fin count} {served : Served} {sent collected : Nat}
    {sample : Option UInt64} (billed : Billed requests world received samples)
    (kept : Kept 0 served.seat)
    (bills : Bills requests (world.seat index) served.seat (received index) sent collected
      sample) :
    Billed requests (world.put index served)
      (Function.update received index (received index + collected))
      (samples ++ sample.toList) := by
  have stats : (world.put index served).stats =
      { charge world.stats sent collected sample with failed := served.seat.stats.failed } :=
    bills.stats
  obtain ⟨sentMore, receivedMore⟩ := charge_bytes world.stats sent collected sample
  constructor
  · intro other
    by_cases same : other = index
    · subst same
      simpa only [World.put, Function.update_self] using bills.ledger
    · simpa only [World.put, Function.update_of_ne same] using billed.ledger other
  · intro other
    by_cases same : other = index
    · subst same
      simpa only [Kept, World.put, World.seat, Function.update_self] using kept
    · have before := billed.kept other
      simpa only [Kept, World.put, World.seat, Function.update_of_ne same] using before
  · have total : ∑ other, sentBy ((world.put index served).clients other)
        ((world.put index served).nextSequence other) =
          (∑ other, sentBy (world.clients other) (world.nextSequence other)) + sent := by
      apply sum_change index
      · intro other different
        simp only [World.put, Function.update_of_ne different]
      · simp only [World.put, Function.update_self]
        exact bills.sends
    rw [stats, total, UInt64.ofNat_add, ← billed.bytesSent]
    exact sentMore
  · have total : ∑ other, Function.update received index (received index + collected) other =
        (∑ other, received other) + collected := by
      apply sum_change index
      · intro other different
        rw [Function.update_of_ne different]
      · rw [Function.update_self]
    rw [stats, total, UInt64.ofNat_add, ← billed.bytesReceived]
    exact receivedMore
  · rw [List.length_append, billed.counted]
    symm
    apply sum_change index
    · intro other different
      exact put_completed_other different
    · rw [put_completed_same]
      exact bills.counts
  · rw [stats]
    exact billed.sampled.charges sent collected sample _

theorem connect_bills {requests : UInt64} {seat : Seat} {earlier : Nat}
    (fresh : seat.nextSequence = 0)
    (ledger : Ledger requests seat.client seat.nextSequence earlier)
    (connected : Except Errno Fd) :
    Bills requests seat (seat.connect connected).seat earlier 0 0 none := by
  have nothing : earlier = 0 := by
    have most := ledger.receivedMost
    rw [fresh] at most
    exact Nat.le_zero.mp most
  have unsent : sentBy seat.client seat.nextSequence = 0 := by
    have most := ledger.sentMost
    rw [fresh] at most ⊢
    exact Nat.le_zero.mp most
  have empty : ∀ fd state, Ledger requests { resetClient with fd := fd, state := state }
      seat.nextSequence (earlier + 0) := by
    intro fd state
    rw [fresh, nothing]
    exact
      { started := Nat.le_refl 0
        bound := Nat.zero_le _
        sentLeast := Nat.le_refl 0
        sentMost := Nat.le_refl 0
        receivedLeast := Nat.le_refl 0
        receivedMost := Nat.le_refl 0
        collected := fun _ => Nat.le_refl 0 }
  have reset : ∀ fd state,
      sentBy { resetClient with fd := fd, state := state } seat.nextSequence = 0 := by
    intro fd state
    rw [fresh]
    rfl
  have none : seat.client.requestCompleted.toNat = 0 := by
    have started := ledger.started
    rw [fresh] at started
    exact Nat.le_zero.mp started
  cases connected with
  | error reason =>
      constructor
      · exact empty (-1) .failed
      · rw [unsent]
        exact reset (-1) .failed
      · rw [none]
        rfl
      · simp only [Seat.connect, reconnectClient, charge_nothing]
  | ok fd =>
      constructor
      · exact empty fd .connecting
      · rw [unsent]
        exact reset fd .connecting
      · rw [none]
        rfl
      · simp only [Seat.connect, reconnectClient, Seat.keep, charge_nothing]

/-- The statistics are those of the samples, for some numbers of bytes received. -/
def Adds (requests : UInt64) (world : World count) (samples : List UInt64) : Prop :=
  ∃ received, Billed requests world received samples

/-- Latencies may have been recorded behind the samples. -/
def AddsMore (requests : UInt64) (world : World count) (samples : List UInt64) : Prop :=
  ∃ more, Adds requests world (samples ++ more)

variable {requests : UInt64} {samples : List UInt64} {world after : World count}

theorem Adds.more (adds : Adds requests world samples) : AddsMore requests world samples :=
  ⟨[], by rw [List.append_nil]; exact adds⟩

/-- One client more has been served. -/
theorem AddsMore.put {index : Fin count} {served : Served} (adds : AddsMore requests world samples)
    (kept : Kept 0 (world.seat index) → Kept 0 served.seat)
    (bills : ∀ earlier, Kept 0 (world.seat index) →
      Ledger requests (world.clients index) (world.nextSequence index) earlier →
        ∃ sent collected sample,
          Bills requests (world.seat index) served.seat earlier sent collected sample) :
    AddsMore requests (world.put index served) samples := by
  obtain ⟨more, received, billed⟩ := adds
  obtain ⟨sent, collected, sample, one⟩ := bills _ (billed.kept index) (billed.ledger index)
  have all := put_billed billed (kept (billed.kept index)) one
  rw [List.append_assoc] at all
  exact ⟨_, _, all⟩

theorem connect_all_adds (product : count * requests.toNat < 2 ^ 64)
    (positive : 0 < requests.toNat) {connected : Fin count → Except Errno Fd}
    (valid : ∀ index, ∀ fd ∈ (connected index).toOption, 0 ≤ fd)
    (accounted : Accounted requests (List.finRange count) world)
    (adds : Adds requests world samples) (result : world.connectAll connected = some after) :
    AddsMore requests after samples := by
  have both := for_each_keeps
    (fun rest now => Accounted requests rest now ∧ AddsMore requests now samples)
    ?_ (List.nodup_finRange count) ⟨accounted, adds.more⟩ result
  · exact both.2
  · rintro index rest now served distinct ⟨before, more⟩ body
    cases body
    obtain ⟨completed, next, absent⟩ := before.fresh index List.mem_cons_self
    have seatCompleted : (now.seat index).client.requestCompleted.toNat = 0 := completed
    have seatNext : (now.seat index).nextSequence = 0 := next
    have serves := connect_serves positive seatNext seatCompleted (valid index)
    constructor
    · apply put_accounted product before serves absent (List.nodup_cons.mp distinct).1
      intro other different
      simp [different]
    · apply more.put
      · exact fun _ => connect_kept _ _
      · exact fun earlier _ ledger => ⟨0, 0, none, connect_bills seatNext ledger (connected index)⟩

theorem serve_all_adds (product : count * requests.toNat < 2 ^ 64)
    (positive : 0 < requests.toNat) {answers : PassAnswers count}
    {revents : Fin count → PollEvents} (accounted : Accounted requests [] world)
    (adds : Adds requests world samples)
    (within : ∀ index, (revents index).Within (requested (world.clients index)))
    (result : world.serveAll requests answers revents = some after) :
    AddsMore requests after samples := by
  have all := for_each_keeps
    (fun rest now => (Accounted requests [] now ∧ AddsMore requests now samples) ∧
      ∀ index ∈ rest, now.clients index = world.clients index)
    ?_ (List.nodup_finRange count) ⟨⟨accounted, adds.more⟩, fun _ _ => rfl⟩ result
  · exact all.1.2
  · rintro index rest now served distinct ⟨⟨before, more⟩, unserved⟩ body
    have asked := within index
    rw [← unserved index List.mem_cons_self] at asked
    obtain ⟨situation, situated⟩ := before.situation index
    refine ⟨⟨(serve_accounted product positive before asked body).1, ?_⟩, ?_⟩
    · apply more.put
      · exact fun kept => serve_kept kept body
      · exact fun earlier kept ledger => serve_bills positive situated kept ledger asked body
    · intro other member
      have different : other ≠ index := fun equal =>
        (List.nodup_cons.mp distinct).1 (equal ▸ member)
      simp only [World.put, Function.update_of_ne different]
      exact unserved other (List.mem_cons_of_mem _ member)

/-- The phase and the signal flag take no part in it. -/
theorem AddsMore.restate (adds : AddsMore requests world samples) (phase : Phase) (stop : Bool) :
    AddsMore requests { world with phase := phase, stopRequested := stop } samples := by
  obtain ⟨more, received, billed⟩ := adds
  exact ⟨more, received, billed.ledger, billed.kept, billed.bytesSent, billed.bytesReceived,
    billed.counted, billed.sampled⟩

theorem pass_adds (product : count * requests.toNat < 2 ^ 64) (positive : 0 < requests.toNat)
    {answers : PassAnswers count} (honest : Honest world (.pass answers))
    (accounted : Accounted requests [] world) (adds : Adds requests world samples)
    (result : world.pass requests answers = some after) : AddsMore requests after samples := by
  unfold World.pass at result
  rw [set_up_all_same accounted, Option.bind_some] at result
  split at result
  · cases result
    exact adds.more
  · cases result
    exact adds.more.restate .left world.stopRequested
  · rename_i revents polled
    have known : revents ∈ answers.poll.toOption := by rw [polled]; rfl
    exact serve_all_adds product positive accounted adds
      (fun index => (honest revents known index).1) result

/-- A step keeps the samples and records further ones. -/
theorem step_adds (product : count * requests.toNat < 2 ^ 64) (positive : 0 < requests.toNat)
    {label : Label count} (reached : Reachable (system count requests) world)
    (adds : Adds requests world samples)
    (taken : (system count requests).step world label after) :
    AddsMore requests after samples := by
  obtain ⟨honest, advanced⟩ := taken
  have head := reachable_head product positive reached
  cases label with
  | connect connected interrupt =>
      simp only [World.advance] at advanced
      split_ifs at advanced with starting
      obtain ⟨opened, result, rfl⟩ := Option.map_eq_some_iff.mp advanced
      have opens := connect_all_adds product positive honest (head.starting starting) adds result
      exact opens.restate _ _
  | pass answers =>
      simp only [World.advance] at advanced
      split_ifs at advanced with running
      obtain ⟨passed, result, rfl⟩ := Option.map_eq_some_iff.mp advanced
      have accounted := head.looping (by rw [running.1]; simp)
      have passes := pass_adds product positive honest accounted adds result
      exact passes.restate _ _

theorem reachable_adds (product : count * requests.toNat < 2 ^ 64) (positive : 0 < requests.toNat)
    (reached : Reachable (system count requests) world) : ∃ samples, Adds requests world samples := by
  apply reachable_invariant _ _ reached
  · rintro _ rfl
    exact ⟨_, _, boot_billed requests⟩
  · rintro state label later prior ⟨samples, adds⟩ taken
    obtain ⟨more, grown⟩ := step_adds product positive prior adds taken
    exact ⟨_, grown⟩

end LinuxSystemPrograms.StressClientBytes
