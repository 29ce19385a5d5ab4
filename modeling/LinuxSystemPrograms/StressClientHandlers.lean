import LinuxSystemPrograms.StressClient

/-!
# The handlers of the stress client

One lemma for each function says what it does to the record it works on and to the
statistics. `Progress` lists the ways a run through the loop of `handle_recv` can end.
-/

namespace LinuxSystemPrograms.StressClientHandlers

open LinuxSystemPrograms.CharArray
open LinuxSystemPrograms.Framing
open LinuxSystemPrograms.Sockets
open LinuxSystemPrograms.StressClient

set_option autoImplicit false

/-- `gained` responses have been counted between two states of the statistics. -/
structure Recorded (before after : Stats) (gained : Nat) : Prop where
  completed : after.completed = before.completed + UInt64.ofNat gained
  failed : after.failed = before.failed
  total : after.totalRequests = before.totalRequests
  capacity : after.latencyCapacity = before.latencyCapacity
  latencies : before.latencies.length ≤ before.latencyCapacity →
    after.latencies.length = min (before.latencies.length + gained) before.latencyCapacity

theorem recorded_none (stats : Stats) : Recorded stats stats 0 where
  completed := (UInt64.add_zero _).symm
  failed := rfl
  total := rfl
  capacity := rfl
  latencies bound := by omega

theorem Recorded.after_none {before middle after : Stats} {gained : Nat}
    (first : Recorded before middle 0) (second : Recorded middle after gained) :
    Recorded before after gained where
  completed := by
    rw [second.completed, first.completed]
    exact congrArg (· + _) (UInt64.add_zero _)
  failed := second.failed.trans first.failed
  total := second.total.trans first.total
  capacity := second.capacity.trans first.capacity
  latencies bound := by
    have middleLength := first.latencies bound
    have capacity := first.capacity
    rw [second.latencies (by omega)]
    omega

theorem recorded_sent (stats : Stats) (bytes : UInt64) :
    Recorded stats { stats with bytesSent := bytes } 0 where
  completed := (recorded_none stats).completed
  failed := rfl
  total := rfl
  capacity := rfl
  latencies := (recorded_none stats).latencies

theorem recorded_received (stats : Stats) (bytes : UInt64) :
    Recorded stats { stats with bytesReceived := bytes } 0 where
  completed := (recorded_none stats).completed
  failed := rfl
  total := rfl
  capacity := rfl
  latencies := (recorded_none stats).latencies

/-- `record_latency` and `stats->completed++`. -/
theorem recorded_latency (stats : Stats) (latencyNs : UInt64) :
    Recorded stats { recordLatency stats latencyNs with completed := stats.completed + 1 } 1 where
  completed := rfl
  failed := rfl
  total := rfl
  capacity := rfl
  latencies bound := by
    simp only [recordLatency]
    split_ifs with room
    · rw [List.length_append, List.length_singleton]
      omega
    · omega

/-- The change of the statistics when one client has been served. -/
structure Tally (before after : Stats) (gained failures : Nat) : Prop where
  completed : after.completed = before.completed + UInt64.ofNat gained
  failed : after.failed = before.failed + UInt64.ofNat failures
  total : after.totalRequests = before.totalRequests
  capacity : after.latencyCapacity = before.latencyCapacity
  latencies : before.latencies.length ≤ before.latencyCapacity →
    after.latencies.length = min (before.latencies.length + gained) before.latencyCapacity

theorem Recorded.tally {before after : Stats} {gained : Nat}
    (recorded : Recorded before after gained) : Tally before after gained 0 where
  completed := recorded.completed
  failed := recorded.failed.trans (UInt64.add_zero _).symm
  total := recorded.total
  capacity := recorded.capacity
  latencies := recorded.latencies

theorem Recorded.failing {before after : Stats} {gained : Nat}
    (recorded : Recorded before after gained) :
    Tally before { after with failed := after.failed + 1 } gained 1 where
  completed := recorded.completed
  failed := congrArg (· + 1) recorded.failed
  total := recorded.total
  capacity := recorded.capacity
  latencies := recorded.latencies

/-- What `handle_send` never touches. -/
structure KeepsResponse (before after : Client) : Prop where
  fd : after.fd = before.fd
  completed : after.requestCompleted = before.requestCompleted
  recvLen : after.recvLen = before.recvLen

structure Sending (client : Client) (stats : Stats) (after : Client) (afterStats : Stats) :
    Prop where
  keeps : KeepsResponse client after
  state : after.state = client.state
  recorded : Recorded stats afterStats 0

theorem sending_refl (client : Client) (stats : Stats) : Sending client stats client stats where
  keeps := ⟨rfl, rfl, rfl⟩
  state := rfl
  recorded := recorded_none stats

theorem send_turn_spec (client : Client) (stats : Stats) (room : SendResult) :
    Sending client stats (sendTurn client stats room).client (sendTurn client stats room).stats ∧
      ((sendTurn client stats room).exit = some .ok → (sendTurn client stats room).client = client) := by
  unfold sendTurn onSend
  split
  · exact ⟨sending_refl client stats, fun _ => rfl⟩
  · refine ⟨?_, fun ok => by cases ok⟩
    exact { keeps := ⟨rfl, rfl, rfl⟩, state := rfl, recorded := recorded_sent stats _ }
  · exact ⟨sending_refl client stats, fun _ => rfl⟩
  · exact ⟨sending_refl client stats, fun _ => rfl⟩
  · exact ⟨sending_refl client stats, fun _ => rfl⟩

theorem send_turn_cases (client : Client) (stats : Stats) (room : SendResult) :
    (∃ count within, (sendTurn client stats room).client = client.advance count within ∧
        (sendTurn client stats room).exit = none) ∨
      (sendTurn client stats room).client = client := by
  unfold sendTurn onSend
  split
  · exact Or.inr rfl
  · rename_i bounded _ _
    exact Or.inl ⟨_, bounded _ rfl, rfl, rfl⟩
  · exact Or.inr rfl
  · exact Or.inr rfl
  · exact Or.inr rfl

theorem handle_send_spec {client : Client} {stats : Stats} {answers : List SendResult}
    {handled : Handled} (result : handleSend client stats answers = some handled) :
    KeepsResponse client handled.client ∧ Recorded stats handled.stats 0 ∧
      (handled.exit = .ok →
        (handled.client.state = .reading ∧
            handled.client.sendOffset = handled.client.sendLen) ∨
          (handled.client.state = client.state ∧
            handled.client.sendOffset < handled.client.sendLen)) := by
  induction answers generalizing client stats with
  | nil =>
      unfold handleSend at result
      split_ifs at result with pending
      cases result
      have bound := client.offsetBound
      exact ⟨⟨rfl, rfl, rfl⟩, recorded_none stats, fun _ => Or.inl ⟨rfl, by simp only; omega⟩⟩
  | cons room rest ih =>
      unfold handleSend at result
      split_ifs at result with pending
      · obtain ⟨sending, unchanged⟩ := send_turn_spec client stats room
        dsimp only at result
        split at result
        · obtain ⟨keeps, recorded, exits⟩ := ih result
          have kept := sending.keeps
          refine ⟨⟨keeps.fd.trans kept.fd, keeps.completed.trans kept.completed,
            keeps.recvLen.trans kept.recvLen⟩, sending.recorded.after_none recorded, ?_⟩
          rw [sending.state] at exits
          exact exits
        · rename_i exit exited
          cases result
          refine ⟨sending.keeps, sending.recorded, ?_⟩
          intro ok
          have same := unchanged (exited.trans (congrArg some ok))
          exact Or.inr ⟨sending.state, by simp only [same]; exact pending⟩
      · cases result
        have bound := client.offsetBound
        exact ⟨⟨rfl, rfl, rfl⟩, recorded_none stats, fun _ => Or.inl ⟨rfl, by simp only; omega⟩⟩

structure Waiting (client : Client) : Prop where
  state : client.state = .reading
  requested : client.sendOffset = client.sendLen
  unfinished : newline ∉ client.response

/-- The request is neither completed nor lost. -/
structure Undecided (client : Client) (stats : Stats) (after : Client) (afterStats : Stats) :
    Prop where
  fd : after.fd = client.fd
  completed : after.requestCompleted = client.requestCompleted
  recorded : Recorded stats afterStats 0

structure Completed (client : Client) (stats : Stats) (after : Client) (afterStats : Stats) :
    Prop where
  state : after.state = .done
  fd : after.fd = client.fd
  completed : after.requestCompleted = client.requestCompleted + 1
  recorded : Recorded stats afterStats 1

theorem undecided_refl (client : Client) (stats : Stats) :
    Undecided client stats client stats := ⟨rfl, rfl, recorded_none stats⟩

theorem Undecided.undecided {client middle after : Client} {stats middleStats afterStats : Stats}
    (first : Undecided client stats middle middleStats)
    (second : Undecided middle middleStats after afterStats) :
    Undecided client stats after afterStats where
  fd := second.fd.trans first.fd
  completed := second.completed.trans first.completed
  recorded := first.recorded.after_none second.recorded

theorem Undecided.completes {client middle after : Client} {stats middleStats afterStats : Stats}
    (first : Undecided client stats middle middleStats)
    (second : Completed middle middleStats after afterStats) :
    Completed client stats after afterStats where
  state := second.state
  fd := second.fd.trans first.fd
  completed := by rw [second.completed, first.completed]
  recorded := first.recorded.after_none second.recorded

theorem remove_message_fields (client : Client) (messageEnd : Nat)
    (bound : messageEnd ≤ client.recvLen) :
    (client.removeMessage messageEnd bound).fd = client.fd ∧
      (client.removeMessage messageEnd bound).id = client.id := by
  unfold Client.removeMessage
  split_ifs <;> exact ⟨rfl, rfl⟩

/-- What one run through the loop of `handle_recv` makes of a waiting client. -/
inductive Progress (client : Client) (stats : Stats) : Turn → Prop where
  | waits {turn : Turn} (undecided : Undecided client stats turn.client turn.stats)
      (proceeds : turn.exit = none) (waiting : Waiting turn.client) : Progress client stats turn
  | again {turn : Turn} (undecided : Undecided client stats turn.client turn.stats)
      (returns : turn.exit = some .ok) (same : turn.client = client) : Progress client stats turn
  | fails {turn : Turn} (undecided : Undecided client stats turn.client turn.stats)
      {lastErrno : Errno} (returns : turn.exit = some (.fail lastErrno)) :
      Progress client stats turn
  | completes {turn : Turn} (completed : Completed client stats turn.client turn.stats)
      (returns : turn.exit = some .ok) : Progress client stats turn

theorem check_response_progress {client middle : Client} {stats middleStats : Stats}
    (first : Undecided client stats middle middleStats) (doneNs : UInt64)
    (reading : middle.state = .reading) (requested : middle.sendOffset = middle.sendLen) :
    Progress client stats (checkResponse middle middleStats doneNs) := by
  unfold checkResponse
  split
  · rename_i absent
    exact .waits first rfl ⟨reading, requested, frame_length_none absent⟩
  · split_ifs with mismatch
    · exact .fails first rfl
    · refine .completes (first.completes ?_) rfl
      exact
        { state := rfl
          fd := (remove_message_fields middle _ _).1
          completed := rfl
          recorded := recorded_latency middleStats _ }

theorem on_recv_progress {client : Client} (stats : Stats) (doneNs : UInt64)
    (waiting : Waiting client) (result : RecvResult)
    (bounded : ∀ chunk, result = .ok chunk → chunk.length ≤ bufSize - client.recvLen) :
    Progress client stats (onRecv client stats doneNs result bounded) := by
  match result with
  | .ok chunk =>
      unfold onRecv
      dsimp only
      split_ifs with eof
      · exact .fails (undecided_refl client stats) rfl
      · apply check_response_progress
        · exact ⟨rfl, rfl, recorded_received stats _⟩
        · exact waiting.state
        · exact waiting.requested
  | .error .eintr => exact .waits (undecided_refl client stats) rfl waiting
  | .error .eagain => exact .again (undecided_refl client stats) rfl rfl
  | .error .einprogress | .error .emsgsize | .error .eproto | .error .econnreset
  | .error (.other _) => exact .fails (undecided_refl client stats) rfl

theorem handle_recv_spec {client : Client} {stats : Stats} {doneNs : UInt64}
    {answers : List RecvResult} {handled : Handled} (waiting : Waiting client)
    (result : handleRecv client stats doneNs answers = some handled) :
    (Undecided client stats handled.client handled.stats ∧
        (handled.exit = .ok → Waiting handled.client ∧ handled.client.recvLen < bufSize)) ∨
      (handled.exit = .ok ∧ Completed client stats handled.client handled.stats) := by
  induction answers generalizing client stats with
  | nil =>
      unfold handleRecv at result
      split_ifs at result with full
      cases result
      exact Or.inl ⟨undecided_refl client stats, fun ok => by cases ok⟩
  | cons ready rest ih =>
      unfold handleRecv at result
      split_ifs at result with full
      · cases result
        exact Or.inl ⟨undecided_refl client stats, fun ok => by cases ok⟩
      · dsimp only at result
        have progress : Progress client stats (recvTurn client stats doneNs ready) :=
          on_recv_progress stats doneNs waiting _ _
        cases progress with
        | waits undecided proceeds stillWaiting =>
            rw [proceeds] at result
            rcases ih stillWaiting result with ⟨later, exits⟩ | ⟨ok, completed⟩
            · exact Or.inl ⟨undecided.undecided later, exits⟩
            · exact Or.inr ⟨ok, undecided.completes completed⟩
        | again undecided returns same =>
            rw [returns] at result
            cases result
            refine Or.inl ⟨undecided, fun _ => ?_⟩
            simp only [same]
            exact ⟨waiting, by omega⟩
        | fails undecided returns =>
            rw [returns] at result
            cases result
            exact Or.inl ⟨undecided, fun ok => by cases ok⟩
        | completes completed returns =>
            rw [returns] at result
            cases result
            exact Or.inr ⟨rfl, completed⟩

theorem payload_length_pos (id : Int32) (sequence : UInt64) : 0 < (payload id sequence).length := by
  simp only [payload, List.length_append, List.length_cons]
  omega

/-- The longest payload has 39 bytes, so `snprintf` never truncates. -/
theorem payload_length_le (id : Int32) (sequence : UInt64) :
    (payload id sequence).length ≤ 39 := by
  have idLength : (Decimal.ofInt id.toInt).length ≤ 10 + 1 := by
    apply Decimal.of_int_length_le (by decide)
    have upper := Int32.toInt_lt id
    have lower := Int32.le_toInt id
    omega
  have sequenceLength : (Decimal.ofNat sequence.toNat).length ≤ 20 := by
    apply Decimal.of_nat_length_le (by decide)
    have upper := UInt64.toNat_lt sequence
    omega
  simp only [payload, List.length_append, List.length_cons, List.length_nil]
  omega

theorem snprintf_text (buffer : List.Vector Byte bufSize) {text : List Byte}
    (fits : text.length < bufSize) :
    slice (snprintf buffer text) 0 text.length (by omega) = text := by
  have whole : text.take (bufSize - 1) = text := List.take_of_length_le (by omega)
  have written : slice (snprintf buffer text) 0 (text.length + 1) (by omega) = text ++ [0] := by
    unfold snprintf
    simp only [whole]
    exact slice_memcpy_same _ _ _ (by simp)
  have shorter : slice (snprintf buffer text) 0 text.length (by omega) =
      (slice (snprintf buffer text) 0 (text.length + 1) (by omega)).take text.length :=
    slice_take _ _ _ (by omega)
  rw [shorter, written, List.take_left' rfl]

structure Prepared (client : Client) (sequence : UInt64) (after : Client) : Prop where
  fd : after.fd = client.fd
  id : after.id = client.id
  completed : after.requestCompleted = client.requestCompleted
  state : after.state = .writing
  request : after.request = payload client.id sequence
  offset : after.sendOffset = 0
  recvLen : after.recvLen = 0

theorem Prepared.pending {client after : Client} {sequence : UInt64}
    (prepared : Prepared client sequence after) : after.sendOffset < after.sendLen := by
  have length : after.sendLen = (payload client.id sequence).length := by
    rw [← prepared.request, Client.request, slice_length]
  rw [prepared.offset, length]
  exact payload_length_pos client.id sequence

/-- `prepare_request` always succeeds. -/
theorem prepare_request_ok (client : Client) (sequence now : UInt64) :
    ∃ after, prepareRequest client sequence now = (after, none) ∧
      Prepared client sequence after := by
  have short := payload_length_le client.id sequence
  have fits : (payload client.id sequence).length < bufSize := by
    simp only [bufSize]
    omega
  unfold prepareRequest
  rw [dif_pos fits]
  refine ⟨_, rfl, ?_⟩
  exact
    { fd := rfl
      id := rfl
      completed := rfl
      state := rfl
      request := snprintf_text client.sendBuf fits
      offset := rfl
      recvLen := rfl }

theorem send_turn_stats (client : Client) (stats other : Stats) (room : SendResult) :
    (sendTurn client stats room).client = (sendTurn client other room).client ∧
      (sendTurn client stats room).exit = (sendTurn client other room).exit := by
  unfold sendTurn onSend
  split <;> exact ⟨rfl, rfl⟩

/-- The statistics have no say in what a handler does. -/
theorem handle_send_stats (client : Client) (stats other : Stats) (answers : List SendResult) :
    (handleSend client stats answers).map Handled.exit =
      (handleSend client other answers).map Handled.exit := by
  induction answers generalizing client stats other with
  | nil =>
      unfold handleSend
      split_ifs <;> rfl
  | cons room rest ih =>
      unfold handleSend
      obtain ⟨sameClient, sameExit⟩ := send_turn_stats client stats other room
      split_ifs
      · dsimp only
        rw [← sameExit, ← sameClient]
        cases (sendTurn client stats room).exit with
        | none => exact ih _ _ _
        | some exit => rfl
      · rfl

theorem check_response_stats (client : Client) (stats other : Stats) (doneNs : UInt64) :
    (checkResponse client stats doneNs).client = (checkResponse client other doneNs).client ∧
      (checkResponse client stats doneNs).exit = (checkResponse client other doneNs).exit := by
  unfold checkResponse
  split
  · exact ⟨rfl, rfl⟩
  · split_ifs <;> exact ⟨rfl, rfl⟩

theorem recv_turn_stats (client : Client) (stats other : Stats) (doneNs : UInt64)
    (ready : RecvResult) :
    (recvTurn client stats doneNs ready).client = (recvTurn client other doneNs ready).client ∧
      (recvTurn client stats doneNs ready).exit = (recvTurn client other doneNs ready).exit := by
  unfold recvTurn onRecv
  split
  · split_ifs
    · exact ⟨rfl, rfl⟩
    · exact check_response_stats _ _ _ _
  · exact ⟨rfl, rfl⟩
  · exact ⟨rfl, rfl⟩
  · exact ⟨rfl, rfl⟩

theorem handle_recv_stats (client : Client) (stats other : Stats) (doneNs : UInt64)
    (answers : List RecvResult) :
    (handleRecv client stats doneNs answers).map Handled.exit =
      (handleRecv client other doneNs answers).map Handled.exit := by
  induction answers generalizing client stats other with
  | nil =>
      unfold handleRecv
      split_ifs <;> rfl
  | cons ready rest ih =>
      unfold handleRecv
      obtain ⟨sameClient, sameExit⟩ := recv_turn_stats client stats other doneNs ready
      split_ifs
      · rfl
      · dsimp only
        rw [← sameExit, ← sameClient]
        cases (recvTurn client stats doneNs ready).exit with
        | none => exact ih _ _ _
        | some exit => rfl

end LinuxSystemPrograms.StressClientHandlers
