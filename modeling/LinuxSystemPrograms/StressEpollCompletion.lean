import LinuxSystemPrograms.StressEpollProgress

/-!
# Every request of a stress client is completed by an epoll server

As long as the client is open, some byte is on its way or some room is there for one: the link
is never deadlocked. A move that is not `Idle` lowers `work`, so that only a kernel that again
and again has nothing for the process that asks can keep the client from its last response.
-/

namespace LinuxSystemPrograms.StressEpollCompletion

open LinuxSystemPrograms.EpollServer
open LinuxSystemPrograms.EpollServerV1
open LinuxSystemPrograms.Framing
open LinuxSystemPrograms.Sockets
open LinuxSystemPrograms.StressClient (PollEvents noEvents requested)
open LinuxSystemPrograms.StressEchoCompletion (justOpened)
open LinuxSystemPrograms.StressEchoStage (Proper completions numbered)
open LinuxSystemPrograms.StressEchoTurns
open LinuxSystemPrograms.StressEpoll
open LinuxSystemPrograms.StressEpollProgress
open LinuxSystemPrograms.Transition

set_option autoImplicit false

variable {variant : Variant} {requests : UInt64} {id : Int32} {ptr : Ptr} {link : Link}

/-- A move is possible for which the kernel has something. -/
def GoesOn (system : System Link Move) (link : Link) : Prop :=
  ∃ move after, ¬ Idle link move ∧ system.step link move after

theorem client_goes_on {move : StressEcho.Move} (own : ofServer move = false)
    (honest : StressEcho.Honest requests link.toLink move)
    (moves : (StressEcho.Link.advance requests link.toLink move).isSome)
    (proper : ¬ Idle link (.client move)) : GoesOn (system variant ptr requests id) link := by
  obtain ⟨base, moved⟩ := Option.isSome_iff_exists.mp moves
  refine ⟨.client move, { link with toLink := base }, proper, honest, ?_⟩
  simp [Link.advance, own, moved]

/-- The client calls `poll` and is told what it asked for. -/
theorem poll_goes_on (isOpen : link.clientFd ≠ -1) (polling : link.client.position = .polling)
    (notDone : link.client.seat.client.state ≠ .done) {revents : PollEvents}
    (within : revents.Within (requested link.client.seat.client))
    (noFatal : (revents.pollerr || revents.pollhup || revents.pollnval) = false)
    (something : revents ≠ noEvents)
    (arrived : link.client.seat.client.state = .reading → link.toClient ≠ []) :
    GoesOn (system variant ptr requests id) link := by
  have honest : StressEcho.Honest requests link.toLink (.poll 0 0 revents (.ok none)) := by
    refine ⟨?_, noFatal, rfl⟩
    rw [StressClientSituations.set_up_keep (Or.inr notDone)]
    exact within
  apply client_goes_on rfl honest
  · simp only [StressEcho.Link.advance, polling, Option.isSome_some]
  · rintro (closed | nothing | ⟨reading, empty⟩)
    · exact isOpen closed
    · exact something nothing
    · exact arrived reading empty

/-- There is room for what the client has to send. -/
theorem pollout_goes_on (isOpen : link.clientFd ≠ -1) (polling : link.client.position = .polling)
    (state : link.client.seat.client.state = .connecting ∨
      link.client.seat.client.state = .writing) :
    GoesOn (system variant ptr requests id) link := by
  have fd : link.client.seat.client.fd ≠ -1 := isOpen
  have within : (⟨false, true, false, false, false⟩ : PollEvents).Within
      (requested link.client.seat.client) := by
    rcases state with state | state
    · rw [requested, if_neg fd, state]
      decide
    · rw [requested, if_neg fd, state]
      decide
  apply poll_goes_on isOpen polling _ within rfl (by decide)
  · intro reading
    rw [reading] at state
    simp at state
  · intro done
    rw [done] at state
    simp at state

/-- What the server has sent is there for the client to read. -/
theorem recv_goes_on (isOpen : link.clientFd ≠ -1)
    (reading : link.client.seat.client.state = .reading) (arrived : link.toClient ≠ [])
    (next : link.client.position = .polling ∨ link.client.position = .receiving) :
    GoesOn (system variant ptr requests id) link := by
  rcases next with polling | receiving
  · have fd : link.client.seat.client.fd ≠ -1 := isOpen
    have within : (⟨true, false, false, false, false⟩ : PollEvents).Within
        (requested link.client.seat.client) := by
      rw [requested, if_neg fd, reading]
      decide
    exact poll_goes_on isOpen polling (by simp [reading]) within rfl (by decide) fun _ => arrived
  · have honest : StressEcho.Honest requests link.toLink (.clientRecv 0 0 (.ok link.toClient)) :=
      ⟨List.prefix_refl _, fun empty => absurd empty arrived⟩
    apply client_goes_on rfl honest
    · simp only [StressEcho.Link.advance, receiving, Option.isSome_some]
    · rintro ⟨reason, refused⟩
      cases refused

theorem send_goes_on {revents : PollEvents} (sending : link.client.position = .sending revents) :
    GoesOn (system variant ptr requests id) link := by
  have honest : StressEcho.Honest requests link.toLink (.clientSend 0 (.ok 1)) := Nat.one_pos
  apply client_goes_on rfl honest
  · simp only [StressEcho.Link.advance, sending, Option.isSome_some]
  · rintro ⟨_, reason, refused⟩
    cases refused

/-- What the client has sent is there for the server to read. -/
theorem server_recv_goes_on (sound : Sound requests id ptr link) (arrived : link.toServer ≠ []) :
    GoesOn (system variant ptr requests id) link := by
  refine ⟨.event ⟨true, false, false, false, false⟩ { quiet with recv := .ok link.toServer }, _,
    fun idle => arrived (idle.1 rfl), ⟨⟨_, sound.armed, ?_⟩, ?_, ?_, ?_, rfl, rfl⟩,
    if_neg sound.serving⟩
  · dsimp only
    by_cases idle : link.slot.view.queued = []
    · rw [mask_idle idle]
      decide
    · rw [mask_pending idle]
      decide
  · exact Bool.noConfusion
  · exact fun _ => ⟨List.prefix_refl _, fun empty => absurd empty arrived⟩
  · exact Bool.noConfusion

/-- While a response is queued, `EPOLLOUT` is asked for. -/
theorem server_send_goes_on (sound : Sound requests id ptr link)
    (pending : link.slot.view.queued ≠ []) : GoesOn (system variant ptr requests id) link := by
  refine ⟨.event ⟨false, true, false, false, false⟩ { quiet with send := .ok 1 }, _, ?_,
    ⟨⟨_, sound.armed, ?_⟩, ?_, ?_, ?_, rfl, rfl⟩, if_neg sound.serving⟩
  · intro idle
    obtain ⟨reason, refused⟩ := idle.2 rfl
    cases refused
  · dsimp only
    rw [mask_pending pending]
    decide
  · exact Bool.noConfusion
  · exact Bool.noConfusion
  · exact fun _ => Nat.one_pos

/-- The newline of the request is missing on one side only if it is still somewhere else. -/
theorem open_goes_on (sound : Sound requests id ptr link) (isOpen : link.clientFd ≠ -1) :
    GoesOn (system variant ptr requests id) link := by
  cases sound.base.stage with
  | finished closed completed quiet => exact absurd closed isOpen
  | fresh _ sameId connecting next completed slot quiet =>
      exact pollout_goes_on isOpen quiet.position (Or.inl connecting)
  | busy busy =>
      obtain ⟨body, _, whole⟩ := busy.frame
      cases busy.doing with
      | writing state unread next =>
          rcases next with polling | ⟨revents, sending, _⟩
          · exact pollout_goes_on isOpen polling (Or.inr state)
          · exact send_goes_on sending
      | reading state sent unfinished next =>
          cases busy.exchange with
          | outward unread wireBack idle reset partUnfinished split =>
              apply server_recv_goes_on sound
              intro arrived
              rw [arrived, List.append_nil, sent, ← request_length, List.take_length,
                whole] at split
              rw [split] at partUnfinished
              simp at partUnfinished
          | homeward allSent wire taken reset split =>
              by_cases arrived : link.toClient = []
              · apply server_send_goes_on sound
                intro idle
                rw [arrived, idle, List.append_nil, List.append_nil, whole] at split
                rw [split] at unfinished
                simp at unfinished
              · exact recv_goes_on isOpen state arrived next

/-! ## Runs of the link -/

theorem step_lowers (known : Known variant) (positive : 0 < requests.toNat) {move : Move}
    {after : Link} (sound : Sound requests id ptr link)
    (step : (system variant ptr requests id).step link move after) (proper : ¬ Idle link move) :
    work requests after.toLink < work requests link.toLink := by
  obtain ⟨honest, result⟩ := step
  cases move with
  | event revents answers =>
      simp only [Link.advance] at result
      rw [if_neg sound.serving, Option.some.injEq] at result
      rw [← result]
      exact event_lowers known sound honest proper
  | client move =>
      unfold Link.advance at result
      dsimp only at result
      split_ifs at result with own
      obtain ⟨base, moved, rfl⟩ := Option.map_eq_some_iff.mp result
      cases move with
      | serverRecv ready => exact absurd rfl own
      | serverSend room => exact absurd rfl own
      | poll setUpNs startNs revents soError =>
          simp only [Idle, not_or] at proper
          exact poll_lowers positive sound.base honest proper.1 proper.2.1 moved
      | clientSend startNs room =>
          exact send_lowers sound.base honest (fun unsent reason refused =>
            proper ⟨unsent, reason, refused⟩) moved
      | clientRecv doneNs startNs ready =>
          cases ready with
          | error reason => exact absurd ⟨reason, rfl⟩ proper
          | ok bytes => exact recv_lowers sound.base honest moved

/-- No handler fails before the client has closed, the responses come in the order of the
requests and equal them, and when the client has closed none is missing. While it is open the
link is not stuck, and from everywhere the last response can still be reached; only a kernel
that again and again has nothing for the process that asks can keep the client from it. -/
theorem every_request_completes (known : Known variant) (ptr : Ptr) (requests : UInt64)
    (id : Int32) (positive : 0 < requests.toNat) :
    (∀ link, Reachable (system variant ptr requests id) link →
      (∀ report ∈ link.history, Proper (link.clientFd ≠ -1) report) ∧
        completions link.history = numbered id link.client.seat.client.requestCompleted.toNat ∧
        (link.clientFd = -1 → completions link.history = numbered id requests.toNat) ∧
        (link.clientFd ≠ -1 → GoesOn (system variant ptr requests id) link) ∧
        ∃ last, Reachable (startedAt (system variant ptr requests id) link) last ∧
          last.clientFd = -1) ∧
      ∀ links, InfiniteRun (system variant ptr requests id) links → ∀ start, ∃ index move,
        start ≤ index ∧ Idle (links index) move ∧
          (system variant ptr requests id).step (links index) move (links (index + 1)) := by
  have lowers : ∀ link move after, Reachable (system variant ptr requests id) link →
      (system variant ptr requests id).step link move after → ¬ Idle link move →
      work requests after.toLink < work requests link.toLink := by
    intro link move after reached step proper
    exact step_lowers known positive (reachable_sound known positive reached) step proper
  constructor
  · intro link reached
    have sound := reachable_sound known positive reached
    refine ⟨sound.base.proper, sound.base.ordered, fun closed => ?_, open_goes_on sound, ?_⟩
    · rw [sound.base.ordered, (quiet_of_closed sound.base closed).1]
    · apply exists_goal (fun link => work requests link.toLink) _ reached
      intro state before isOpen
      obtain ⟨move, after, proper, step⟩ :=
        open_goes_on (reachable_sound known positive before) isOpen
      exact ⟨move, after, step, lowers state move after before step proper⟩
  · intro links endless start
    apply infinite_run_recurs (fun link => work requests link.toLink) _ endless start
    exact lowers

instance (requests : UInt64) (link : Link) : (move : Move) →
    Decidable (StressEpoll.Honest requests link move)
  | .client move => inferInstanceAs (Decidable (StressEcho.Honest requests link.toLink move))
  | .event _ _ => inferInstanceAs (Decidable (_ ∧ _ ∧ _ ∧ _ ∧ _ ∧ _))

def next (variant : Variant) (ptr : Ptr) (requests : UInt64) (link : Link) (move : Move) :
    Option Link :=
  if StressEpoll.Honest requests link move then link.advance variant ptr requests move else none

theorem next_sound (variant : Variant) (ptr : Ptr) (requests : UInt64) (id : Int32) (link : Link)
    (move : Move) (after : Link) (result : next variant ptr requests link move = some after) :
    (system variant ptr requests id).step link move after := by
  unfold next at result
  split_ifs at result with honest
  exact ⟨honest, result⟩

def accepted : Link where
  toLink := justOpened
  shouldClose := false
  entry := some ⟨.read, 8⟩

/-- `bench--7-0` and a newline on its way through the server, and the end of the connection. -/
def oneRequest : List Move :=
  let pollout : PollEvents := { noEvents with pollout := true }
  let pollin : PollEvents := { noEvents with pollin := true }
  [.client (.poll 0 1 pollout (.ok none)), .client (.poll 0 1 pollout (.ok none)),
    .client (.clientSend 1 (.ok 4)),
    .event ⟨true, false, false, false, false⟩ { quiet with recv := .ok [98, 101] },
    .client (.clientSend 1 (.ok 99)),
    .event ⟨true, false, false, false, false⟩
      { quiet with recv := .ok [110, 99, 104, 45, 45, 55, 45, 48, newline] },
    .event ⟨false, true, false, false, false⟩ { quiet with send := .ok 3 },
    .client (.clientSend 1 (.ok 1)), .client (.poll 0 1 pollin (.ok none)),
    .client (.clientRecv 2 1 (.ok [98, 101])),
    .event ⟨false, true, false, false, false⟩ { quiet with send := .ok 99 },
    .client (.clientRecv 2 1 (.ok [110, 99, 104, 45, 45, 55, 45, 48, newline])),
    .event ⟨true, false, true, false, false⟩ { quiet with recv := .ok [] }]

theorem every_request_completes_one : ∃ link, Reachable (system epollV2 8 1 (-7)) link ∧
    link.clientFd = -1 ∧ link.shouldClose = true ∧ completions link.history = numbered (-7) 1 := by
  have started : Started (-7) 8 accepted := by
    refine ⟨⟨⟨5, by decide, rfl⟩, rfl, rfl, ⟨by decide, rfl, rfl⟩, rfl, rfl, rfl⟩, rfl, rfl⟩
  obtain ⟨link, reached, closed, marked⟩ := exists_reachable_of_run
    (next_sound epollV2 8 1 (-7)) started oneRequest
    (fun link => link.clientFd = -1 ∧ link.shouldClose = true) (by decide +kernel)
  have completes := every_request_completes (Or.inr rfl) 8 1 (-7) (by decide)
  exact ⟨link, reached, closed, marked, (completes.1 link reached).2.2.1 closed⟩

end LinuxSystemPrograms.StressEpollCompletion
