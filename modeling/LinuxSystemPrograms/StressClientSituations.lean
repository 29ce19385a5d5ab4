import LinuxSystemPrograms.StressClientHandlers

/-!
# A client of the stress client at the head of the main loop

`InSituation` is what a client looks like there. Serving it leads to such a situation
again, and `Serves` says how the statistics move with it; a failure is counted only on
the events and answers that `Fails` describes.
-/

namespace LinuxSystemPrograms.StressClientSituations

open LinuxSystemPrograms.Sockets
open LinuxSystemPrograms.StressClient
open LinuxSystemPrograms.StressClientHandlers

set_option autoImplicit false

inductive Situation where
  | closed
  | connecting
  | writing
  | reading

/-- One request is under way, and it is not beyond the last. -/
structure InFlight (requests : UInt64) (client : Client) (nextSequence : UInt64) : Prop where
  next : nextSequence.toNat = client.requestCompleted.toNat + 1
  bound : nextSequence.toNat ≤ requests.toNat

def InSituation (requests : UInt64) (client : Client) (nextSequence : UInt64) :
    Situation → Prop
  | .closed => client.fd = -1
  | .connecting =>
      client.fd ≠ -1 ∧ client.state = .connecting ∧ nextSequence = 0 ∧
        client.requestCompleted = 0
  | .writing =>
      client.fd ≠ -1 ∧ client.state = .writing ∧ client.sendOffset < client.sendLen ∧
        client.recvLen = 0 ∧ InFlight requests client nextSequence
  | .reading =>
      client.fd ≠ -1 ∧ client.state = .reading ∧ client.sendOffset = client.sendLen ∧
        client.recvLen < bufSize ∧ newline ∉ client.response ∧
        InFlight requests client nextSequence

def failuresOf : Option Outcome → Nat
  | some .failed => 1
  | _ => 0

structure Serves (requests : UInt64) (before : Seat) (served : Served) (gained : Nat) :
    Prop where
  situation : ∃ situation,
    InSituation requests served.seat.client served.seat.nextSequence situation
  closes : served.seat.client.fd = -1 ↔ served.outcome ≠ none
  counts : served.seat.client.requestCompleted.toNat =
    before.client.requestCompleted.toNat + gained
  bounded : served.seat.client.requestCompleted.toNat + failuresOf served.outcome ≤
    requests.toNat
  finished : served.outcome = some .finished →
    served.seat.client.requestCompleted.toNat = requests.toNat
  tally : Tally before.stats served.seat.stats gained (failuresOf served.outcome)

theorem serves_keep {requests : UInt64} {before after : Seat} {gained : Nat}
    (situation : Situation)
    (situated : InSituation requests after.client after.nextSequence situation)
    (isOpen : after.client.fd ≠ -1)
    (counts : after.client.requestCompleted.toNat =
      before.client.requestCompleted.toNat + gained)
    (bounded : after.client.requestCompleted.toNat ≤ requests.toNat)
    (recorded : Recorded before.stats after.stats gained) :
    Serves requests before after.keep gained where
  situation := ⟨situation, situated⟩
  closes := iff_of_false isOpen fun closed => closed rfl
  counts := counts
  bounded := bounded
  finished := fun finished => by cases finished
  tally := recorded.tally

theorem serves_fail {requests : UInt64} {before after : Seat} {gained : Nat}
    (counts : after.client.requestCompleted.toNat =
      before.client.requestCompleted.toNat + gained)
    (bounded : after.client.requestCompleted.toNat < requests.toNat)
    (recorded : Recorded before.stats after.stats gained) :
    Serves requests before after.fail gained where
  situation := ⟨.closed, rfl⟩
  closes := iff_of_true rfl fun open' => by cases open'
  counts := counts
  bounded := bounded
  finished := fun finished => by cases finished
  tally := recorded.failing

theorem serves_finish {requests : UInt64} {before after : Seat} {gained : Nat}
    (counts : after.client.requestCompleted.toNat =
      before.client.requestCompleted.toNat + gained)
    (done : after.client.requestCompleted.toNat = requests.toNat)
    (recorded : Recorded before.stats after.stats gained) :
    Serves requests before after.finish gained where
  situation := ⟨.closed, rfl⟩
  closes := iff_of_true rfl fun open' => by cases open'
  counts := counts
  bounded := Nat.le_of_eq done
  finished := fun _ => done
  tally := recorded.tally

/-- A request is prepared for a client with none under way. -/
theorem serves_prepare {requests : UInt64} {before after : Seat} {gained : Nat}
    (isOpen : after.client.fd ≠ -1)
    (counts : after.client.requestCompleted.toNat =
      before.client.requestCompleted.toNat + gained)
    (next : after.nextSequence.toNat = after.client.requestCompleted.toNat)
    (room : after.nextSequence.toNat < requests.toNat)
    (recorded : Recorded before.stats after.stats gained) (startNs : UInt64) :
    Serves requests before (after.prepare startNs) gained := by
  obtain ⟨client, result, prepared⟩ :=
    prepare_request_ok after.client after.nextSequence startNs
  have successor : (after.nextSequence + 1).toNat = after.nextSequence.toNat + 1 := by
    have upper := UInt64.toNat_lt requests
    rw [UInt64.toNat_add]
    simp only [UInt64.toNat_one]
    omega
  unfold Seat.prepare
  rw [result]
  refine serves_keep .writing ?_ ?_ ?_ ?_ recorded
  · refine ⟨?_, prepared.state, prepared.pending, prepared.recvLen, ?_, ?_⟩
    · rw [prepared.fd]
      exact isOpen
    · simp only [successor, prepared.completed]
      omega
    · simp only [successor]
      omega
  · simp only [prepared.fd]
    exact isOpen
  · simp only [prepared.completed]
    exact counts
  · simp only [prepared.completed]
    omega

/-- The switch that fills `pfds` has nothing to prepare. -/
theorem set_up_keep {seat : Seat} (settled : seat.client.fd = -1 ∨ seat.client.state ≠ .done)
    (requests startNs : UInt64) : seat.setUp requests startNs = seat.keep := by
  unfold Seat.setUp
  by_cases closed : seat.client.fd = -1
  · exact if_pos closed
  · rw [if_neg closed]
    split
    · exact absurd ‹_› (settled.resolve_left closed)
    · rfl

theorem prepare_outcome (seat : Seat) (startNs : UInt64) :
    (seat.prepare startNs).outcome = none := by
  obtain ⟨client, result, _⟩ := prepare_request_ok seat.client seat.nextSequence startNs
  unfold Seat.prepare
  rw [result]
  rfl

def SendFails (client : Client) (answers : Seat.Answers) : Prop :=
  ∃ handled ∈ handleSend client (statsInit 0) answers.sends, handled.exit ≠ .ok

def RecvFails (client : Client) (answers : Seat.Answers) : Prop :=
  ∃ handled ∈ handleRecv client (statsInit 0) answers.doneNs answers.recvs, handled.exit ≠ .ok

/-- The events and answers on which `main` counts a failure. -/
def Fails (revents : PollEvents) (answers : Seat.Answers) (client : Client) : Prop :=
  client.fd ≠ -1 ∧
    if client.state = .connecting then
      (revents.pollout || revents.pollerr || revents.pollhup) = true ∧
        verifyConnection answers.soError ≠ .ok
    else
      (revents.pollerr || revents.pollhup || revents.pollnval) = true ∨
        (client.state = .writing ∧ revents.pollout = true ∧ SendFails client answers) ∨
        (client.state = .reading ∧ revents.pollin = true ∧ RecvFails client answers)

instance (client : Client) (answers : Seat.Answers) : Decidable (SendFails client answers) :=
  inferInstanceAs (Decidable (∃ handled ∈ handleSend _ _ _, _))

instance (client : Client) (answers : Seat.Answers) : Decidable (RecvFails client answers) :=
  inferInstanceAs (Decidable (∃ handled ∈ handleRecv _ _ _ _, _))

instance (revents : PollEvents) (answers : Seat.Answers) (client : Client) :
    Decidable (Fails revents answers client) := by
  unfold Fails
  infer_instance

theorem send_fails_of {client : Client} {stats : Stats} {answers : Seat.Answers}
    {handled : Handled} (result : handleSend client stats answers.sends = some handled)
    (failed : handled.exit ≠ .ok) : SendFails client answers := by
  have same := handle_send_stats client (statsInit 0) stats answers.sends
  rw [result, Option.map_some, Option.map_eq_some_iff] at same
  obtain ⟨other, otherResult, sameExit⟩ := same
  exact ⟨other, otherResult, sameExit ▸ failed⟩

theorem recv_fails_of {client : Client} {stats : Stats} {answers : Seat.Answers}
    {handled : Handled}
    (result : handleRecv client stats answers.doneNs answers.recvs = some handled)
    (failed : handled.exit ≠ .ok) : RecvFails client answers := by
  have same := handle_recv_stats client (statsInit 0) stats answers.doneNs answers.recvs
  rw [result, Option.map_some, Option.map_eq_some_iff] at same
  obtain ⟨other, otherResult, sameExit⟩ := same
  exact ⟨other, otherResult, sameExit ▸ failed⟩

/-- The client is served, and counted as a failure only if it fails. -/
structure Treats (requests : UInt64) (revents : PollEvents) (answers : Seat.Answers)
    (seat : Seat) (served : Served) (gained : Nat) : Prop where
  serves : Serves requests seat served gained
  failing : served.outcome = some .failed → gained = 0 ∧ Fails revents answers seat.client

theorem serve_connecting {requests : UInt64} {revents : PollEvents} {answers : Seat.Answers}
    {seat : Seat} {served : Served} (positive : 0 < requests.toNat)
    (situated : InSituation requests seat.client seat.nextSequence .connecting)
    (result : seat.serve requests revents answers = some served) :
    Treats requests revents answers seat served 0 := by
  obtain ⟨isOpen, connecting, next, completed⟩ := situated
  have none : seat.client.requestCompleted.toNat = 0 := by
    rw [completed]
    rfl
  have stays : Serves requests seat seat.keep 0 :=
    serves_keep .connecting ⟨isOpen, connecting, next, completed⟩ isOpen rfl (by omega)
      (recorded_none _)
  unfold Seat.serve at result
  rw [if_neg isOpen] at result
  split_ifs at result with quiet ready
  · cases result
    exact ⟨stays, fun failed => by cases failed⟩
  · unfold handleConnect at result
    cases verified : verifyConnection answers.soError with
    | ok =>
        rw [verified] at result
        cases result
        constructor
        · apply serves_prepare
          · exact isOpen
          · rfl
          · simp only [next, completed]
          · simp only [next, UInt64.toNat_zero]
            exact positive
          · exact recorded_none _
        · intro failed
          rw [prepare_outcome] at failed
          cases failed
    | fail reason =>
        rw [verified] at result
        cases result
        constructor
        · refine serves_fail ?_ ?_ (recorded_none _)
          · rfl
          · simp only [none]
            exact positive
        · intro _
          refine ⟨rfl, isOpen, ?_⟩
          rw [if_pos connecting, verified]
          exact ⟨ready, fun same => by cases same⟩
  · cases result
    exact ⟨stays, fun failed => by cases failed⟩

theorem and_then_keep (seat : Seat) (rest : Seat → Option Served) :
    Seat.andThen seat.keep rest = rest seat := rfl

theorem and_then_fail (seat : Seat) (rest : Seat → Option Served) :
    Seat.andThen seat.fail rest = some seat.fail := rfl

theorem after_handler_ok {seat : Seat} {handled : Handled} (ok : handled.exit = .ok) :
    seat.afterHandler handled =
      Seat.keep { seat with client := handled.client, stats := handled.stats } := by
  rw [Seat.afterHandler, ok]

theorem after_handler_fail {seat : Seat} {handled : Handled} (failed : handled.exit ≠ .ok) :
    seat.afterHandler handled =
      Seat.fail { seat with client := handled.client, stats := handled.stats } := by
  unfold Seat.afterHandler
  split
  · exact absurd ‹_› failed
  · rfl

/-- `POLLIN` is reported to nobody but a client that reads, and `POLLOUT` not to such a one. -/
theorem no_pollin {client : Client} {revents : PollEvents}
    (within : revents.Within (requested client)) (notReading : client.state ≠ .reading) : revents.pollin = false := by
  cases input : revents.pollin with
  | false => rfl
  | true =>
      have asked := within.1 input
      unfold requested at asked
      split_ifs at asked
      · cases asked
      · cases state : client.state with
        | reading => exact absurd state notReading
        | connecting => simp [state] at asked
        | writing => simp [state] at asked
        | done => simp [state, noEvents] at asked
        | failed => simp [state, noEvents] at asked

theorem no_pollout {client : Client} {revents : PollEvents}
    (within : revents.Within (requested client)) (reading : client.state = .reading) :
    revents.pollout = false := by
  cases output : revents.pollout with
  | false => rfl
  | true =>
      have asked := within.2 output
      unfold requested at asked
      split_ifs at asked
      · cases asked
      · simp [reading] at asked

theorem send_stage_reading {seat : Seat} (reading : seat.client.state = .reading)
    (revents : PollEvents) (answers : Seat.Answers) :
    seat.sendStage revents answers = some seat.keep := by
  unfold Seat.sendStage
  rw [if_neg (by simp [reading])]

/-- Without `POLLIN` nothing happens after `handle_send`. -/
theorem tail_without_pollin {requests : UInt64} {revents : PollEvents} {answers : Seat.Answers}
    {seat : Seat} (noInput : revents.pollin = false) (notDone : seat.client.state ≠ .done) :
    ((seat.recvStage revents answers).bind fun received =>
      Seat.andThen received fun seat => some (seat.doneStage requests answers.startNs)) =
        some seat.keep := by
  have received : seat.recvStage revents answers = some seat.keep := by
    unfold Seat.recvStage
    rw [if_neg (by simp [noInput])]
  rw [received, Option.bind_some, and_then_keep, Seat.doneStage, if_neg notDone]

theorem serve_writing {requests : UInt64} {revents : PollEvents} {answers : Seat.Answers}
    {seat : Seat} {served : Served}
    (situated : InSituation requests seat.client seat.nextSequence .writing)
    (within : revents.Within (requested seat.client))
    (result : seat.serve requests revents answers = some served) :
    Treats requests revents answers seat served 0 := by
  obtain ⟨isOpen, writing, pending, recvLen, inFlight⟩ := situated
  have next := inFlight.next
  have bound := inFlight.bound
  have noInput := no_pollin within (by simp [writing])
  have notConnecting : seat.client.state ≠ .connecting := by simp [writing]
  have stays : Serves requests seat seat.keep 0 :=
    serves_keep .writing ⟨isOpen, writing, pending, recvLen, inFlight⟩ isOpen rfl (by omega)
      (recorded_none _)
  unfold Seat.serve at result
  rw [if_neg isOpen, if_neg notConnecting] at result
  split_ifs at result with quiet fatal
  · cases result
    exact ⟨stays, fun failed => by cases failed⟩
  · cases result
    refine ⟨serves_fail rfl (by omega) (recorded_none _), fun _ => ⟨rfl, isOpen, ?_⟩⟩
    rw [if_neg notConnecting]
    exact Or.inl fatal
  · unfold Seat.sendStage at result
    split_ifs at result with ready
    · rw [Option.bind_eq_some_iff] at result
      obtain ⟨sent, stage, rest⟩ := result
      obtain ⟨handled, sends, rfl⟩ := Option.map_eq_some_iff.mp stage
      obtain ⟨keeps, recorded, exits⟩ := handle_send_spec sends
      have completed : handled.client.requestCompleted.toNat =
          seat.client.requestCompleted.toNat + 0 := by rw [keeps.completed]; rfl
      by_cases exit : handled.exit = .ok
      · rw [after_handler_ok exit, and_then_keep] at rest
        have stillInFlight : InFlight requests handled.client seat.nextSequence :=
          ⟨by rw [keeps.completed]; exact next, bound⟩
        have stillOpen : handled.client.fd ≠ -1 := by
          rw [keeps.fd]
          exact isOpen
        rcases exits exit with ⟨reading, requestSent⟩ | ⟨sameState, stillPending⟩
        · rw [tail_without_pollin noInput (by simp [reading])] at rest
          cases rest
          constructor
          · apply serves_keep .reading _ stillOpen completed (by simp only; omega) recorded
            refine ⟨stillOpen, reading, requestSent, ?_, ?_, stillInFlight⟩
            · simp only [keeps.recvLen, recvLen, bufSize]
              decide
            · have empty : handled.client.response = [] := by
                apply List.eq_nil_of_length_eq_zero
                simp [Client.response, keeps.recvLen, recvLen]
              simp [empty]
          · exact fun failed => by cases failed
        · rw [tail_without_pollin noInput (by simp [sameState, writing])] at rest
          cases rest
          constructor
          · apply serves_keep .writing _ stillOpen completed (by simp only; omega) recorded
            exact ⟨stillOpen, sameState.trans writing, stillPending,
              keeps.recvLen.trans recvLen, stillInFlight⟩
          · exact fun failed => by cases failed
      · rw [after_handler_fail exit, and_then_fail] at rest
        cases rest
        constructor
        · exact serves_fail completed (by simp only; omega) recorded
        · intro _
          refine ⟨rfl, isOpen, ?_⟩
          rw [if_neg notConnecting]
          exact Or.inr (Or.inl ⟨writing, ready.2, send_fails_of sends exit⟩)
    · rw [Option.bind_some, and_then_keep,
        tail_without_pollin noInput (by simp [writing])] at result
      cases result
      exact ⟨stays, fun failed => by cases failed⟩

/-- The response is not complete yet. -/
theorem treats_waiting {requests startNs : UInt64} {revents : PollEvents}
    {answers : Seat.Answers} {seat : Seat} {handled : Handled}
    (isOpen : seat.client.fd ≠ -1) (inFlight : InFlight requests seat.client seat.nextSequence)
    (undecided : Undecided seat.client seat.stats handled.client handled.stats)
    (waiting : Waiting handled.client) (room : handled.client.recvLen < bufSize) :
    Treats requests revents answers seat
      (Seat.doneStage requests startNs
        { seat with client := handled.client, stats := handled.stats }) 0 := by
  have next := inFlight.next
  have bound := inFlight.bound
  have counts : handled.client.requestCompleted.toNat =
      seat.client.requestCompleted.toNat + 0 := by
    rw [undecided.completed]
    rfl
  have stillOpen : handled.client.fd ≠ -1 := by
    rw [undecided.fd]
    exact isOpen
  unfold Seat.doneStage
  rw [if_neg (by simp [waiting.state])]
  constructor
  · apply serves_keep .reading _ stillOpen counts (by simp only; omega) undecided.recorded
    exact ⟨stillOpen, waiting.state, waiting.requested, room, waiting.unfinished,
      by rw [undecided.completed]; exact next, bound⟩
  · exact fun failed => by cases failed

/-- The next request is prepared, or it was the last. -/
theorem treats_completed {requests startNs : UInt64} {revents : PollEvents}
    {answers : Seat.Answers} {seat : Seat} {handled : Handled}
    (isOpen : seat.client.fd ≠ -1) (inFlight : InFlight requests seat.client seat.nextSequence)
    (completed : Completed seat.client seat.stats handled.client handled.stats) :
    Treats requests revents answers seat
      (Seat.doneStage requests startNs
        { seat with client := handled.client, stats := handled.stats }) 1 := by
  have next := inFlight.next
  have bound := inFlight.bound
  have counts : handled.client.requestCompleted.toNat =
      seat.client.requestCompleted.toNat + 1 := by
    have upper := UInt64.toNat_lt requests
    rw [completed.completed, UInt64.toNat_add, UInt64.toNat_one]
    omega
  unfold Seat.doneStage
  rw [if_pos completed.state]
  split_ifs with more
  · have room : seat.nextSequence.toNat < requests.toNat := UInt64.lt_iff_toNat_lt.mp more
    constructor
    · apply serves_prepare
      · simp only [completed.fd]
        exact isOpen
      · exact counts
      · simp only
        omega
      · exact room
      · exact completed.recorded
    · intro failed
      rw [prepare_outcome] at failed
      cases failed
  · have last : ¬ seat.nextSequence.toNat < requests.toNat :=
      fun less => more (UInt64.lt_iff_toNat_lt.mpr less)
    constructor
    · exact serves_finish counts (by simp only; omega) completed.recorded
    · exact fun failed => by cases failed

theorem serve_reading {requests : UInt64} {revents : PollEvents} {answers : Seat.Answers}
    {seat : Seat} {served : Served}
    (situated : InSituation requests seat.client seat.nextSequence .reading)
    (result : seat.serve requests revents answers = some served) :
    ∃ gained, Treats requests revents answers seat served gained := by
  obtain ⟨isOpen, reading, requestSent, room, unfinished, inFlight⟩ := situated
  have next := inFlight.next
  have bound := inFlight.bound
  have notConnecting : seat.client.state ≠ .connecting := by simp [reading]
  have stays : Serves requests seat seat.keep 0 :=
    serves_keep .reading ⟨isOpen, reading, requestSent, room, unfinished, inFlight⟩ isOpen rfl
      (by omega) (recorded_none _)
  unfold Seat.serve at result
  rw [if_neg isOpen, if_neg notConnecting] at result
  split_ifs at result with quiet fatal
  · cases result
    exact ⟨0, stays, fun failed => by cases failed⟩
  · cases result
    refine ⟨0, serves_fail rfl (by omega) (recorded_none _), fun _ => ⟨rfl, isOpen, ?_⟩⟩
    rw [if_neg notConnecting]
    exact Or.inl fatal
  · rw [send_stage_reading reading, Option.bind_some, and_then_keep] at result
    cases input : revents.pollin with
    | false =>
        rw [tail_without_pollin input (by simp [reading])] at result
        cases result
        exact ⟨0, stays, fun failed => by cases failed⟩
    | true =>
        unfold Seat.recvStage at result
        rw [if_pos ⟨reading, input⟩, Option.bind_eq_some_iff] at result
        obtain ⟨received, stage, rest⟩ := result
        obtain ⟨handled, receives, rfl⟩ := Option.map_eq_some_iff.mp stage
        have spec := handle_recv_spec ⟨reading, requestSent, unfinished⟩ receives
        by_cases exit : handled.exit = .ok
        · rw [after_handler_ok exit, and_then_keep, Option.some.injEq] at rest
          subst rest
          rcases spec with ⟨undecided, waits⟩ | ⟨_, completed⟩
          · obtain ⟨waiting, stillRoom⟩ := waits exit
            exact ⟨0, treats_waiting isOpen inFlight undecided waiting stillRoom⟩
          · exact ⟨1, treats_completed isOpen inFlight completed⟩
        · rw [after_handler_fail exit, and_then_fail, Option.some.injEq] at rest
          subst rest
          rcases spec with ⟨undecided, _⟩ | ⟨ok, _⟩
          · refine ⟨0, serves_fail ?_ ?_ undecided.recorded, fun _ => ⟨rfl, isOpen, ?_⟩⟩
            · simp only [undecided.completed]
              rfl
            · simp only [undecided.completed]
              omega
            · rw [if_neg notConnecting]
              exact Or.inr (Or.inr ⟨reading, input, recv_fails_of receives exit⟩)
          · exact absurd ok exit

end LinuxSystemPrograms.StressClientSituations
