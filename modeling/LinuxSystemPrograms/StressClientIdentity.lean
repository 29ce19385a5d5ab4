import LinuxSystemPrograms.StressClientAccounting
import LinuxSystemPrograms.StressEchoCompletion

/-!
# The sender of a request

`payload` determines the id and the number of a request. The id is `0` for every client:
`main` writes the index into `clients[i].id`, and `reset_client` clears it again. So the
requests of a run identify their senders only as long as client 0 is the only one.
-/

namespace LinuxSystemPrograms.StressClientIdentity

open LinuxSystemPrograms.Framing
open LinuxSystemPrograms.Sockets
open LinuxSystemPrograms.StressClient
open LinuxSystemPrograms.StressClientAccounting
open LinuxSystemPrograms.StressClientHandlers
open LinuxSystemPrograms.StressClientSituations
open LinuxSystemPrograms.StressEchoCompletion
open LinuxSystemPrograms.StressEchoTurns
open LinuxSystemPrograms.Transition

set_option autoImplicit false

theorem payload_injective {id otherId : Int32} {sequence otherSequence : UInt64}
    (same : payload id sequence = payload otherId otherSequence) :
    id = otherId ∧ sequence = otherSequence := by
  have texts := List.append_cancel_right same
  obtain ⟨heads, numbers⟩ := last_delimiter_unique (Decimal.minus_not_mem_of_nat _)
    (Decimal.minus_not_mem_of_nat _) texts
  constructor
  · exact Int32.toInt_inj.mp (Decimal.of_int_injective (List.append_cancel_left heads))
  · exact UInt64.toNat_inj.mp (Decimal.of_nat_injective numbers)

variable {count : Nat}

/-- A request has been prepared for the client and is not answered yet. Every request is in
this state at the head of the loop after the pass that prepares it. -/
def UnderWay (world : World count) (index : Fin count) : Prop :=
  (world.clients index).fd ≠ -1 ∧
    ((world.clients index).state = .writing ∨ (world.clients index).state = .reading)

instance (world : World count) (index : Fin count) : Decidable (UnderWay world index) :=
  inferInstanceAs (Decidable (_ ∧ (_ ∨ _)))

/-- The client and the sequence number that its last request was prepared with. -/
def stamp (world : World count) (index : Fin count) : Fin count × UInt64 :=
  (index, world.nextSequence index - 1)

/-- The requests in these runs identify their senders. -/
structure Identified (runs : System (World count) (Label count)) : Prop where
  id : ∀ world, Reachable runs world → world.phase = .looping →
    ∀ index, (world.clients index).fd ≠ -1 → (world.clients index).id.toInt = index
  distinct : ∀ left right, Reachable runs left → Reachable runs right →
    ∀ first second, UnderWay left first → UnderWay right second →
      stamp left first ≠ stamp right second →
        (left.clients first).request ≠ (right.clients second).request
  rejects : ∀ left right, Reachable runs left → Reachable runs right →
    ∀ first second, UnderWay left first → UnderWay right second →
      stamp left first ≠ stamp right second →
        ∀ client stats doneNs rest, client.request = (left.clients first).request →
          client.response = (right.clients second).request ++ rest →
            (checkResponse client stats doneNs).exit = some (.fail .eproto)

def Connects (connected : Fin count → Except Errno Fd) (_ : World count) : Label count → Prop
  | .connect outcome _ => outcome = connected
  | .pass _ => True

/-! ## What a client keeps -/

structure Labelled (id : Int32) (client : Client) (nextSequence : UInt64) : Prop where
  sameId : client.id = id
  request : client.state = .writing ∨ client.state = .reading →
    client.request = payload id (nextSequence - 1)

theorem handle_send_same {client : Client} {stats : Stats} {answers : List SendResult}
    {handled : Handled} (result : handleSend client stats answers = some handled) :
    SameRequest client handled.client := by
  induction answers generalizing client stats with
  | nil =>
      unfold handleSend at result
      split_ifs at result
      cases result
      exact ⟨rfl, rfl, rfl, rfl⟩
  | cons room rest ih =>
      unfold handleSend at result
      split_ifs at result
      · have turn : SameRequest client (sendTurn client stats room).client := by
          rcases send_turn_cases client stats room with ⟨accepted, within, advanced, _⟩ | same
          · rw [advanced]
            exact ⟨rfl, rfl, rfl, rfl⟩
          · rw [same]
            exact same_request_refl client
        dsimp only at result
        split at result
        · exact turn.trans (ih result)
        · cases result
          exact turn
      · cases result
        exact ⟨rfl, rfl, rfl, rfl⟩

/-- The request is still under way, or its response has been found right. -/
def Settles (before after : Client) : Prop :=
  (SameRequest before after ∧ after.state = before.state) ∨
    (after.state = .done ∧ after.id = before.id)

theorem settles_refl (client : Client) : Settles client client :=
  Or.inl ⟨same_request_refl client, rfl⟩

theorem Settles.trans {before middle after : Client} (first : Settles before middle)
    (second : Settles middle after) : Settles before after := by
  rcases first with ⟨same, state⟩ | ⟨done, sameId⟩
  · rcases second with ⟨later, laterState⟩ | ⟨done, sameId⟩
    · exact Or.inl ⟨same.trans later, laterState.trans state⟩
    · exact Or.inr ⟨done, sameId.trans same.id⟩
  · rcases second with ⟨later, laterState⟩ | ⟨stillDone, laterId⟩
    · exact Or.inr ⟨laterState.trans done, later.id.trans sameId⟩
    · exact Or.inr ⟨stillDone, laterId.trans sameId⟩

theorem check_response_settles (client : Client) (stats : Stats) (doneNs : UInt64) :
    Settles client (checkResponse client stats doneNs).client := by
  rcases check_response_cases client stats doneNs with
    ⟨_, turn⟩ | ⟨_, _, _, _, ⟨_, turn⟩ | ⟨_, validated⟩⟩
  · rw [turn]
    exact settles_refl client
  · rw [turn]
    exact settles_refl client
  · exact Or.inr ⟨validated.state, validated.id⟩

theorem recv_turn_settles (client : Client) (stats : Stats) (doneNs : UInt64)
    (ready : RecvResult) : Settles client (recvTurn client stats doneNs ready).client := by
  have stays := settles_refl client
  unfold recvTurn onRecv
  split
  · split_ifs with eof
    · exact stays
    · rcases check_response_settles (client.append _ _) _ doneNs with ⟨same, state⟩ | ⟨done, sameId⟩
      · exact Or.inl ⟨⟨same.fd, same.id, same.completed, same.request⟩, state⟩
      · exact Or.inr ⟨done, sameId⟩
  · exact stays
  · exact stays
  · exact stays

theorem handle_recv_settles {client : Client} {stats : Stats} {doneNs : UInt64}
    {answers : List RecvResult} {handled : Handled}
    (result : handleRecv client stats doneNs answers = some handled) :
    Settles client handled.client := by
  induction answers generalizing client stats with
  | nil =>
      unfold handleRecv at result
      split_ifs at result
      cases result
      exact settles_refl client
  | cons ready rest ih =>
      unfold handleRecv at result
      split_ifs at result
      · cases result
        exact settles_refl client
      · have turn := recv_turn_settles client stats doneNs ready
        dsimp only at result
        split at result
        · exact turn.trans (ih result)
        · cases result
          exact turn

/-! ## Every client has the id 0 -/

theorem prepare_labelled {id : Int32} {seat : Seat} (sameId : seat.client.id = id)
    (startNs : UInt64) :
    Labelled id (seat.prepare startNs).seat.client (seat.prepare startNs).seat.nextSequence := by
  obtain ⟨client, result, prepared⟩ := prepare_request_ok seat.client seat.nextSequence startNs
  unfold Seat.prepare
  rw [result]
  constructor
  · exact prepared.id.trans sameId
  · intro _
    have sequence : seat.nextSequence + 1 - 1 = seat.nextSequence := by simp
    simp only [Seat.keep]
    rw [sequence, prepared.request, sameId]

def Kept (id : Int32) (seat : Seat) : Prop :=
  seat.client.fd ≠ -1 → Labelled id seat.client seat.nextSequence

theorem kept_fail (id : Int32) (seat : Seat) : Kept id seat.fail.seat :=
  fun isOpen => absurd rfl isOpen

theorem kept_finish (id : Int32) (seat : Seat) : Kept id seat.finish.seat :=
  fun isOpen => absurd rfl isOpen

theorem done_stage_kept {id : Int32} {seat : Seat} (requests startNs : UInt64)
    (labelled : Labelled id seat.client seat.nextSequence) :
    Kept id (seat.doneStage requests startNs).seat := by
  unfold Seat.doneStage
  split_ifs
  · exact fun _ => prepare_labelled labelled.sameId startNs
  · exact kept_finish id seat
  · exact fun _ => labelled

theorem after_handler_kept {id : Int32} {seat : Seat} {handled : Handled}
    {rest : Seat → Option Served} {served : Served}
    (labelled : Labelled id handled.client seat.nextSequence)
    (remaining : ∀ after, Labelled id after.client after.nextSequence →
      rest after = some served → Kept id served.seat)
    (result : Seat.andThen (seat.afterHandler handled) rest = some served) :
    Kept id served.seat := by
  by_cases ok : handled.exit = .ok
  · rw [after_handler_ok ok, and_then_keep] at result
    exact remaining _ labelled result
  · rw [after_handler_fail ok, and_then_fail, Option.some.injEq] at result
    rw [← result]
    exact kept_fail id _

theorem recv_stage_kept {id : Int32} {seat : Seat} {requests : UInt64} {revents : PollEvents}
    {answers : Seat.Answers} {served : Served}
    (labelled : Labelled id seat.client seat.nextSequence)
    (result : ((seat.recvStage revents answers).bind fun received =>
      Seat.andThen received fun seat => some (seat.doneStage requests answers.startNs)) =
        some served) : Kept id served.seat := by
  have remaining : ∀ after : Seat, Labelled id after.client after.nextSequence →
      some (after.doneStage requests answers.startNs) = some served → Kept id served.seat := by
    intro after afterLabelled same
    rw [← Option.some.inj same]
    exact done_stage_kept requests answers.startNs afterLabelled
  unfold Seat.recvStage at result
  split_ifs at result with ready
  · rw [Option.bind_eq_some_iff] at result
    obtain ⟨received, stage, rest⟩ := result
    obtain ⟨handled, receives, rfl⟩ := Option.map_eq_some_iff.mp stage
    refine after_handler_kept ?_ remaining rest
    rcases handle_recv_settles receives with ⟨same, state⟩ | ⟨done, sameId⟩
    · constructor
      · exact same.id.trans labelled.sameId
      · intro _
        rw [same.request]
        exact labelled.request (Or.inr ready.1)
    · constructor
      · exact sameId.trans labelled.sameId
      · rintro (writing | reading)
        · rw [done] at writing
          cases writing
        · rw [done] at reading
          cases reading
  · rw [Option.bind_some, and_then_keep] at result
    exact remaining seat labelled result

theorem serve_kept {id : Int32} {seat : Seat} {requests : UInt64} {revents : PollEvents}
    {answers : Seat.Answers} {served : Served} (kept : Kept id seat)
    (result : seat.serve requests revents answers = some served) : Kept id served.seat := by
  unfold Seat.serve at result
  split_ifs at result with closed quiet connecting ready fatal
  · cases result
    exact kept
  · cases result
    exact kept
  · have labelled := kept closed
    unfold handleConnect at result
    cases verified : verifyConnection answers.soError with
    | ok =>
        rw [verified] at result
        cases result
        refine fun _ => prepare_labelled ?_ answers.startNs
        exact labelled.sameId
    | fail reason =>
        rw [verified] at result
        cases result
        exact kept_fail id _
  · cases result
    exact kept
  · cases result
    exact kept_fail id _
  · have labelled := kept closed
    unfold Seat.sendStage at result
    split_ifs at result with writing
    · rw [Option.bind_eq_some_iff] at result
      obtain ⟨sent, stage, rest⟩ := result
      obtain ⟨handled, sends, rfl⟩ := Option.map_eq_some_iff.mp stage
      have same := handle_send_same sends
      refine after_handler_kept ?_ (fun after => recv_stage_kept) rest
      constructor
      · exact same.id.trans labelled.sameId
      · intro _
        rw [same.request]
        exact labelled.request (Or.inl writing.1)
    · rw [Option.bind_some, and_then_keep] at result
      exact recv_stage_kept labelled result

theorem set_up_kept {id : Int32} {seat : Seat} (requests startNs : UInt64) (kept : Kept id seat) :
    Kept id (seat.setUp requests startNs).seat := by
  unfold Seat.setUp
  by_cases closed : seat.client.fd = -1
  · rw [if_pos closed]
    exact kept
  · rw [if_neg closed]
    split
    · split_ifs
      · exact fun _ => prepare_labelled (kept closed).sameId startNs
      · exact kept
    · exact kept

/-- `reset_client` has cleared the id. -/
theorem connect_kept (seat : Seat) (connected : Except Errno Fd) :
    Kept 0 (seat.connect connected).seat := by
  cases connected with
  | error reason => exact fun isOpen => absurd rfl isOpen
  | ok fd =>
      intro _
      constructor
      · rfl
      · rintro (writing | reading)
        · cases writing
        · cases reading

/-! ## Whole runs -/

/-- An open client has been connected, under the id 0. -/
def Anonymous (connected : Fin count → Except Errno Fd) (world : World count) : Prop :=
  ∀ index, (world.clients index).fd ≠ -1 →
    (connected index).isOk = true ∧
      Labelled 0 (world.clients index) (world.nextSequence index)

theorem for_each_anonymous {connected : Fin count → Except Errno Fd}
    {body : Fin count → Seat → Option Served}
    (keeps : ∀ index seat served, body index seat = some served →
      (seat.client.fd ≠ -1 → (connected index).isOk = true ∧
        Labelled 0 seat.client seat.nextSequence) →
      served.seat.client.fd ≠ -1 → (connected index).isOk = true ∧
        Labelled 0 served.seat.client served.seat.nextSequence)
    {world after : World count} (before : Anonymous connected world)
    (result : World.forEach body (List.finRange count) world = some after) :
    Anonymous connected after := by
  refine for_each_keeps (fun _ now => Anonymous connected now) ?_ (List.nodup_finRange count)
    before result
  intro index rest now served _ anonymous served_by other
  by_cases same : other = index
  · subst same
    simp only [World.put, Function.update_self]
    exact keeps other (now.seat other) served served_by (anonymous other)
  · simp only [World.put, Function.update_of_ne same]
    exact anonymous other

/-- A pass opens no connection. -/
theorem serve_open {seat : Seat} {requests : UInt64} {revents : PollEvents}
    {answers : Seat.Answers} {served : Served}
    (result : seat.serve requests revents answers = some served)
    (isOpen : served.seat.client.fd ≠ -1) : seat.client.fd ≠ -1 := by
  intro closed
  unfold Seat.serve at result
  rw [if_pos closed] at result
  cases result
  exact isOpen closed

theorem set_up_open {seat : Seat} {requests startNs : UInt64}
    (isOpen : (seat.setUp requests startNs).seat.client.fd ≠ -1) : seat.client.fd ≠ -1 := by
  intro closed
  rw [set_up_keep (Or.inl closed)] at isOpen
  exact isOpen closed

theorem pass_anonymous {requests : UInt64} {connected : Fin count → Except Errno Fd}
    {world after : World count} {answers : PassAnswers count}
    (before : Anonymous connected world) (result : world.pass requests answers = some after) :
    Anonymous connected after := by
  unfold World.pass at result
  rw [Option.bind_eq_some_iff] at result
  obtain ⟨ready, setUp, rest⟩ := result
  have readyAnonymous : Anonymous connected ready := by
    refine for_each_anonymous ?_ before setUp
    intro index seat served same known isOpen
    rw [← Option.some.inj same] at isOpen ⊢
    exact ⟨(known (set_up_open isOpen)).1,
      set_up_kept requests _ (fun wasOpen => (known wasOpen).2) isOpen⟩
  split at rest
  · rw [← Option.some.inj rest]
    exact readyAnonymous
  · rw [← Option.some.inj rest]
    exact readyAnonymous
  · refine for_each_anonymous ?_ readyAnonymous rest
    intro index seat served serves known isOpen
    exact ⟨(known (serve_open serves isOpen)).1,
      serve_kept (fun wasOpen => (known wasOpen).2) serves isOpen⟩

theorem connect_anonymous {connected : Fin count → Except Errno Fd} {world after : World count}
    (before : Anonymous connected world) (result : world.connectAll connected = some after) :
    Anonymous connected after := by
  refine for_each_anonymous ?_ before result
  intro index seat served same _ isOpen
  rw [← Option.some.inj same] at isOpen ⊢
  refine ⟨?_, connect_kept seat (connected index) isOpen⟩
  cases outcome : connected index with
  | error reason =>
      rw [outcome] at isOpen
      exact absurd rfl isOpen
  | ok fd => rfl

theorem reachable_anonymous {requests : UInt64} {connected : Fin count → Except Errno Fd}
    {world : World count}
    (reached : Reachable (guarded (system count requests) (Connects connected)) world) :
    Anonymous connected world := by
  apply reachable_invariant _ _ reached
  · rintro _ rfl index isOpen
    exact absurd rfl isOpen
  · rintro state label after _ anonymous ⟨connects, _, advanced⟩
    cases label with
    | connect outcome interrupt =>
        simp only [World.advance] at advanced
        split_ifs at advanced
        obtain ⟨opened, result, rfl⟩ := Option.map_eq_some_iff.mp advanced
        rw [show outcome = connected from connects] at result
        have kept := connect_anonymous anonymous result
        exact kept
    | pass answers =>
        simp only [World.advance] at advanced
        split_ifs at advanced
        obtain ⟨passed, result, rfl⟩ := Option.map_eq_some_iff.mp advanced
        have kept := pass_anonymous anonymous result
        exact kept

theorem connect_each (connected : Fin count → Except Errno Fd) {indices : List (Fin count)}
    (distinct : indices.Nodup) (world : World count) :
    ∃ after, World.forEach (fun index seat => some (seat.connect (connected index))) indices world =
        some after ∧
      ∀ index, after.clients index =
        if index ∈ indices then (reconnectClient (connected index)).1 else world.clients index := by
  induction indices generalizing world with
  | nil => exact ⟨world, rfl, fun _ => rfl⟩
  | cons head rest ih =>
      obtain ⟨notInRest, restDistinct⟩ := List.nodup_cons.mp distinct
      obtain ⟨after, result, clients⟩ :=
        ih restDistinct (world.put head ((world.seat head).connect (connected head)))
      refine ⟨after, result, ?_⟩
      intro index
      rw [clients index]
      by_cases same : index = head
      · subst same
        rw [if_neg notInRest, if_pos List.mem_cons_self]
        simp only [World.put, Function.update_self]
        unfold Seat.connect
        cases connected index <;> rfl
      · simp only [World.put, Function.update_of_ne same, List.mem_cons, same, false_or]

/-- The state of the main loop behind the connections. -/
theorem opened_reachable {requests : UInt64} {connected : Fin count → Except Errno Fd}
    (valid : ∀ index, ∀ fd ∈ (connected index).toOption, 0 ≤ fd) :
    ∃ world, Reachable (guarded (system count requests) (Connects connected)) world ∧
      world.phase = .looping ∧
      ∀ index, world.clients index = (reconnectClient (connected index)).1 := by
  obtain ⟨opened, result, clients⟩ :=
    connect_each connected (List.nodup_finRange count) (World.boot count requests)
  refine ⟨{ opened with phase := .looping, stopRequested := false }, ?_, rfl, ?_⟩
  · apply Reachable.next (.connect connected false) (.start rfl)
    refine ⟨rfl, valid, ?_⟩
    have starting : (World.boot count requests).phase = .starting := rfl
    simp only [World.advance]
    rw [if_pos starting, World.connectAll, result]
    rfl
  · intro index
    simp only [clients index, List.mem_finRange, if_true]

theorem request_of_anonymous {connected : Fin count → Except Errno Fd} {world : World count}
    {index : Fin count} (anonymous : Anonymous connected world) (underWay : UnderWay world index) :
    (world.clients index).request = payload 0 (stamp world index).2 :=
  (anonymous index underWay.1).2.request underWay.2

/-- The echo of another request is a wrong response. -/
theorem foreign_echo_rejected {client : Client} {foreign rest : List Byte} (stats : Stats)
    (doneNs : UInt64) (frame : Frame newline foreign) (different : client.request ≠ foreign)
    (response : client.response = foreign ++ rest) :
    (checkResponse client stats doneNs).exit = some (.fail .eproto) := by
  rcases check_response_cases client stats doneNs with
    ⟨absent, _⟩ | ⟨line, tail, lineFrame, split, ⟨_, turn⟩ | ⟨right, _⟩⟩
  · obtain ⟨body, _, answer⟩ := frame
    rw [response, answer] at absent
    simp at absent
  · rw [turn]
  · have line := frame_unique lineFrame frame (split.symm.trans response)
    exact absurd (right.symm.trans line) different

/-- The id of a connection that is opened is `0`, so its index has to be `0` as well. -/
theorem opened_first {requests : UInt64} {connected : Fin count → Except Errno Fd}
    (valid : ∀ index, ∀ fd ∈ (connected index).toOption, 0 ≤ fd)
    (identified : Identified (guarded (system count requests) (Connects connected)))
    {index : Fin count} (success : (connected index).isOk = true) : index.val = 0 := by
  obtain ⟨world, reached, looping, clients⟩ := opened_reachable valid
  cases outcome : connected index with
  | error reason =>
      rw [outcome] at success
      cases success
  | ok fd =>
      have client : world.clients index = { resetClient with fd := fd, state := .connecting } := by
        rw [clients index, outcome]
        rfl
      have isOpen : (world.clients index).fd ≠ -1 := by
        rw [client]
        exact fd_ne_of_valid (valid index fd (by rw [outcome]; rfl))
      have sameId := identified.id world reached looping index isOpen
      rw [client] at sameId
      have zero : ({ resetClient with fd := fd, state := .connecting } : Client).id.toInt = 0 := rfl
      omega

/-- With one client the sequence numbers tell the requests apart. -/
theorem requests_distinct {connected : Fin count → Except Errno Fd}
    (onlyFirst : ∀ index, (connected index).isOk = true → index.val = 0)
    {left right : World count} (leftAnonymous : Anonymous connected left)
    (rightAnonymous : Anonymous connected right) {one other : Fin count}
    (oneUnderWay : UnderWay left one) (otherUnderWay : UnderWay right other)
    (stamps : stamp left one ≠ stamp right other) :
    (left.clients one).request ≠ (right.clients other).request := by
  intro same
  rw [request_of_anonymous leftAnonymous oneUnderWay,
    request_of_anonymous rightAnonymous otherUnderWay] at same
  have sequences := (payload_injective same).2
  have oneFirst := onlyFirst one (leftAnonymous one oneUnderWay.1).1
  have otherFirst := onlyFirst other (rightAnonymous other otherUnderWay.1).1
  exact stamps (Prod.ext (Fin.ext (oneFirst.trans otherFirst.symm)) sequences)

/-- The requests identify their senders exactly when no connection but the first is opened. -/
theorem requests_identified_iff (requests : UInt64) (connected : Fin count → Except Errno Fd)
    (valid : ∀ index, ∀ fd ∈ (connected index).toOption, 0 ≤ fd) :
    Identified (guarded (system count requests) (Connects connected)) ↔
      ∀ index, (connected index).isOk = true → index.val = 0 := by
  constructor
  · intro identified index success
    exact opened_first valid identified success
  · intro onlyFirst
    constructor
    · intro world reached _ index isOpen
      have kept := reachable_anonymous reached index isOpen
      rw [kept.2.sameId, onlyFirst index kept.1]
      rfl
    · intro left right leftReached rightReached one other
      exact requests_distinct onlyFirst (reachable_anonymous leftReached)
        (reachable_anonymous rightReached)
    · intro left right leftReached rightReached one other oneUnderWay otherUnderWay stamps client
        stats doneNs rest request response
      have rightAnonymous := reachable_anonymous rightReached
      have differ := requests_distinct onlyFirst (reachable_anonymous leftReached) rightAnonymous
        oneUnderWay otherUnderWay stamps
      rw [← request] at differ
      refine foreign_echo_rejected stats doneNs ?_ differ response
      rw [request_of_anonymous rightAnonymous otherUnderWay]
      exact payload_frame 0 _

theorem requests_identified_single_client :
    Identified (guarded (system 1 2) (Connects fun _ => .ok 3)) := by
  have valid : ∀ index : Fin 1, ∀ fd ∈ ((fun _ => .ok 3 : Fin 1 → Except Errno Fd) index).toOption,
      0 ≤ fd := by decide
  exact (requests_identified_iff 2 (fun _ => .ok 3) valid).mpr fun index _ => by omega

/-- Both clients send `bench-0-0` and a newline. -/
theorem two_clients_send_one_request :
    ¬ ∀ (count : Nat) (requests : UInt64), 0 < count → count < 2 ^ 31 → 0 < requests.toNat →
      Identified (system count requests) := by
  intro always
  let answers : PassAnswers 2 :=
    { setUpNs := fun _ => 0
      poll := .ok fun _ => ⟨false, true, false, false, false⟩
      client := fun _ => (quiet noEvents).client 0
      interrupt := false }
  obtain ⟨world, reached, zero, one, same⟩ := exists_reachable_of_run (next_sound 1) rfl
    [.connect (fun _ => .ok 3) false, .pass answers]
    (fun world : World 2 => UnderWay world 0 ∧ UnderWay world 1 ∧
      (world.clients 0).request = (world.clients 1).request)
    (by decide +kernel)
  have identified := always 2 1 (by decide) (by decide) (by decide)
  refine identified.distinct world world reached reached 0 1 zero one ?_ same
  intro stamps
  have indices : (0 : Fin 2) = 1 := congrArg Prod.fst stamps
  exact absurd indices (by decide)

end LinuxSystemPrograms.StressClientIdentity
