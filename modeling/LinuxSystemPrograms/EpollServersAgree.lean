import LinuxSystemPrograms.EpollServerV1

/-!
# When the two epoll servers do the same

The second version differs from the first in its limits, in the value that `handle_recv`
returns at the end of the input, and in that `EPOLLRDHUP` marks a client only when that
value is not 0. `Alike` is what the kernel has to do for none of this to be seen; then a run
of one version is a run of the other, up to the value that is only logged.
-/

namespace LinuxSystemPrograms.EpollServersAgree

open LinuxSystemPrograms.ConnectionAccount
open LinuxSystemPrograms.EchoClient
open LinuxSystemPrograms.EpollServer
open LinuxSystemPrograms.EpollServerV1
open LinuxSystemPrograms.Sockets
open LinuxSystemPrograms.Transition

set_option autoImplicit false

/-! ## Logs without the value of `handle_recv` -/

def erase : Event → Event
  | .note (.ofRecv exit _) => .note (.ofRecv exit 0)
  | event => event

def eraseAction : Action Return → Action Return
  | .accept fd => .accept fd
  | .io fd event => .io fd (erase event)

def eraseKernel (kernel : Kernel Return) : Kernel Return :=
  { kernel with log := fun id => (kernel.log id).map erase }

theorem erase_record (kernel : Kernel Return) (id : Nat) (events : List Event) :
    eraseKernel (kernel.record id events) = (eraseKernel kernel).record id (events.map erase) := by
  simp only [eraseKernel, Kernel.record, Kernel.mk.injEq, true_and]
  funext other
  by_cases same : other = id
  · rw [same, Function.update_self, Function.update_self, List.map_append]
  · rw [Function.update_of_ne same, Function.update_of_ne same]

theorem erase_step (kernel : Kernel Return) (action : Action Return) :
    eraseKernel (kernel.step action) = (eraseKernel kernel).step (eraseAction action) := by
  cases action with
  | accept fd => rfl
  | io fd event =>
      have file : (eraseKernel kernel).file = kernel.file := rfl
      cases owner : kernel.file fd with
      | closed => simp [Kernel.step, eraseAction, file, owner]
      | listener => simp [Kernel.step, eraseAction, file, owner]
      | conn id =>
          have erasedOwner : (eraseKernel kernel).file fd = .conn id := owner
          by_cases isClose : event = .close
          · subst isClose
            rw [Kernel.step_close owner]
            have closing : eraseAction (.io fd .close) = .io fd .close := rfl
            rw [closing, Kernel.step_close erasedOwner]
            exact congrArg (Kernel.release · fd) (erase_record kernel id [.close])
          · have stays : erase event ≠ .close := by
              unfold erase
              split
              · simp
              · exact isClose
            rw [Kernel.step_open owner isClose, eraseAction, Kernel.step_open erasedOwner stays]
            exact erase_record kernel id [event]

theorem erase_exec (kernel : Kernel Return) (actions : List (Action Return)) :
    eraseKernel (kernel.exec actions) = (eraseKernel kernel).exec (actions.map eraseAction) := by
  induction actions generalizing kernel with
  | nil => rfl
  | cons action rest ih =>
      rw [List.map_cons, Kernel.exec_cons, Kernel.exec_cons, ih, erase_step]

theorem erase_io (fd : Fd) (events : List Event) :
    (events.map (.io fd)).map eraseAction = (events.map erase).map (.io fd) := by
  rw [List.map_map, List.map_map]
  rfl

/-- Equal servers, and kernels whose logs differ in the value of `handle_recv` only. -/
structure Same (one two : World) : Prop where
  server : one.server = two.server
  kernel : eraseKernel one.kernel = eraseKernel two.kernel

namespace Same

variable {one two : World}

theorem symm (same : Same one two) : Same two one := ⟨same.server.symm, same.kernel.symm⟩

theorem file (same : Same one two) : one.kernel.file = two.kernel.file := by
  have files := congrArg Kernel.file same.kernel
  exact files

theorem log (same : Same one two) (id : Nat) :
    (one.kernel.log id).map erase = (two.kernel.log id).map erase := by
  have logs := congrFun (congrArg Kernel.log same.kernel) id
  exact logs

end Same

/-! ## One event -/

def marks (variant : Variant) (rdhup : Bool) (exit : RecvExit) : Bool :=
  decide (variant.recvCode exit = -1) || (rdhup && variant.hangupMarks (variant.recvCode exit))

/-- The two versions treat an event alike: both have room for a connection or neither has,
and `handle_recv` marks the client in both or in neither. -/
structure AlikeEvent (first second : Variant) (server : Server) (event : EpollEvent)
    (answers : Answers) : Prop where
  room : event.ptr = 0 → (full first server ↔ full second server)
  marking : ∀ client ∈ server.heap event.ptr, event.events.epollin = true →
    client.shouldClose = true ∨
      marks first event.events.epollrdhup (client.toClient.receive answers.recv).2 =
        marks second event.events.epollrdhup (client.toClient.receive answers.recv).2

/-- What the kernel may do where the versions are to agree. -/
def Alike (first second : Variant) (world : World) : Label → Prop
  | .wait report =>
      report.length ≤ first.maxEvents + 1 ∧ report.length ≤ second.maxEvents + 1
  | .handle answers =>
      ∀ event ∈ world.server.evs.head?, AlikeEvent first second world.server event answers

variable {first second : Variant}

theorem AlikeEvent.symm {server : Server} {event : EpollEvent} {answers : Answers}
    (alike : AlikeEvent first second server event answers) :
    AlikeEvent second first server event answers where
  room isListener := (alike.room isListener).symm
  marking client live readable := (alike.marking client live readable).imp_right Eq.symm

theorem Alike.symm {world : World} {label : Label} (alike : Alike first second world label) :
    Alike second first world label := by
  cases label with
  | wait report => exact And.symm alike
  | handle answers => exact fun event next => (alike event next).symm

/-- What a branch leaves behind, without the value of `handle_recv`. -/
structure Handles (one two : Handled) : Prop where
  client : one.client = two.client
  entry : one.entry = two.entry
  events : one.events.map erase = two.events.map erase

theorem read_stage_alike {ptr : Ptr} {revents : Events} {answers : Answers}
    {client : EpollServer.Client} {entry : Option EpollEvent}
    (marking : revents.epollin = true → client.shouldClose = true ∨
      marks first revents.epollrdhup (client.toClient.receive answers.recv).2 =
        marks second revents.epollrdhup (client.toClient.receive answers.recv).2) :
    Handles (readStage first ptr revents answers client entry)
      (readStage second ptr revents answers client entry) := by
  cases readable : revents.epollin with
  | false =>
      rw [read_stage_idle first ptr answers client entry readable,
        read_stage_idle second ptr answers client entry readable]
      exact ⟨rfl, rfl, rfl⟩
  | true =>
      have marked : ∀ variant : Variant,
          (readStage variant ptr revents answers client entry).client =
            { toClient := (client.toClient.receive answers.recv).1
              shouldClose := client.shouldClose ||
                marks variant revents.epollrdhup (client.toClient.receive answers.recv).2 } := by
        intro variant
        simp only [readStage, readable, if_true, handleRecv, marks, Bool.or_assoc]
        rfl
      constructor
      · rw [marked first, marked second]
        rcases marking readable with already | same
        · rw [already, Bool.true_or, Bool.true_or]
        · rw [same]
      · simp only [readStage, readable, if_true, handleRecv]
      · simp only [readStage, readable, if_true, handleRecv, recvHandler, List.map_append,
          List.map_cons, List.map_nil, erase]

theorem serve_event_alike {event : EpollEvent} {answers : Answers}
    {client : EpollServer.Client} {entry : Option EpollEvent}
    (marking : event.events.epollin = true → client.shouldClose = true ∨
      marks first event.events.epollrdhup (client.toClient.receive answers.recv).2 =
        marks second event.events.epollrdhup (client.toClient.receive answers.recv).2) :
    Handles (serveEvent first event answers client entry)
        (serveEvent second event answers client entry) ∧
      (serveEvent first event answers client entry).ret =
        (serveEvent second event answers client entry).ret := by
  obtain ⟨clients, entries, events⟩ :=
    @read_stage_alike first second event.ptr event.events answers client entry marking
  simp only [serveEvent, clients, entries]
  refine ⟨⟨rfl, rfl, ?_⟩, trivial⟩
  simp only [List.map_append, events]

theorem serve_client_alike {event : EpollEvent} {answers : Answers}
    {client : EpollServer.Client} {server : Server}
    (marking : event.events.epollin = true → client.shouldClose = true ∨
      marks first event.events.epollrdhup (client.toClient.receive answers.recv).2 =
        marks second event.events.epollrdhup (client.toClient.receive answers.recv).2) :
    (serveClient first event answers client server).1 =
        (serveClient second event answers client server).1 ∧
      (serveClient first event answers client server).2.map eraseAction =
        (serveClient second event answers client server).2.map eraseAction := by
  obtain ⟨⟨clients, entries, events⟩, rets⟩ :=
    @serve_event_alike first second event answers client (server.interest client.clientFd) marking
  simp only [serveClient, clients, entries, rets]
  split_ifs
  · exact ⟨rfl, by simp only [erase_io, List.map_append, events]⟩
  · exact ⟨rfl, by simp only [erase_io, List.map_append, events]⟩
  · exact ⟨rfl, by simp only [erase_io, events]⟩

theorem accept_alike {server : Server} (answers : Answers)
    (room : full first server ↔ full second server) :
    acceptClient first answers server = acceptClient second answers server := by
  simp only [acceptClient, room]

/-- The loop body of one version, step by step that of the other. -/
theorem dispatch_alike {event : EpollEvent} {answers : Answers} {server after : Server}
    {actions : List (Action Return)} (alike : AlikeEvent first second server event answers)
    (result : dispatch first answers event server = some (after, actions)) :
    ∃ others, dispatch second answers event server = some (after, others) ∧
      actions.map eraseAction = others.map eraseAction := by
  unfold dispatch at result ⊢
  split_ifs at result ⊢ with listening busy
  · rw [accept_alike answers (alike.room listening.1)] at result
    exact ⟨actions, result, rfl⟩
  · obtain ⟨client, live, served⟩ := Option.map_eq_some_iff.mp result
    obtain ⟨servers, erased⟩ := @serve_client_alike first second event answers client server
      (alike.marking client live)
    rw [served] at servers erased
    refine ⟨(serveClient second event answers client server).2, ?_, erased⟩
    rw [live, Option.map_some]
    exact congrArg some (Prod.ext servers.symm rfl)
  · exact ⟨actions, result, rfl⟩

/-! ## Runs -/

theorem step_alike {one two after : World} {label : Label} (same : Same one two)
    (alike : Alike first second one label) (taken : (system first).step one label after) :
    ∃ other, (system second).step two label other ∧ Same after other := by
  obtain ⟨honest, advanced⟩ := taken
  have servers := same.server
  cases label with
  | wait report =>
      cases pending : one.server.evs with
      | cons event rest => simp [advance, pending] at advanced
      | nil =>
          simp only [advance, pending, Option.some.injEq] at advanced
          rw [servers] at pending
          refine ⟨{ two with
            server := { two.server with evs := batch two.server.interest report } }, ⟨?_, ?_⟩, ?_⟩
          · rw [Honest, ← servers]
            exact ⟨alike.2, honest.2⟩
          · simp only [advance, pending]
          · rw [← advanced]
            exact ⟨by rw [servers], same.kernel⟩
  | handle answers =>
      cases pending : one.server.evs with
      | nil => simp [advance, pending] at advanced
      | cons event rest =>
          simp only [advance, pending, Option.map_eq_some_iff] at advanced
          obtain ⟨⟨served, actions⟩, result, rfl⟩ := advanced
          obtain ⟨others, otherResult, erased⟩ :=
            dispatch_alike (alike event (by rw [pending]; rfl)) result
          rw [servers] at pending otherResult
          refine ⟨⟨{ served with evs := rest }, two.kernel.exec others⟩, ⟨?_, ?_⟩, ?_⟩
          · rw [Honest, ← servers, ← same.file]
            exact honest
          · simp only [advance, pending, otherResult, Option.map_some]
          · refine ⟨rfl, ?_⟩
            rw [erase_exec, erase_exec, erased, same.kernel]

/-- A condition that looks at the server only, and under which the versions treat every event
alike, makes the runs of one version runs of the other. -/
theorem reachable_alike {Allowed : World → Label → Prop}
    (servers : ∀ one two label, one.server = two.server → Allowed one label → Allowed two label)
    (alike : ∀ world label, Allowed world label → Alike first second world label) {one : World}
    (reached : Reachable (guarded (system first) Allowed) one) :
    ∃ two, Reachable (guarded (system second) Allowed) two ∧ Same one two := by
  induction reached with
  | @start state initial => exact ⟨state, .start initial, rfl, rfl⟩
  | next label prior taken ih =>
      obtain ⟨two, reachedTwo, same⟩ := ih
      obtain ⟨other, stepped, after⟩ := step_alike same (alike _ _ taken.1) taken.2
      exact ⟨other, .next label reachedTwo ⟨servers _ _ _ same.server taken.1, stepped⟩, after⟩

/-! ## The versions of the repository -/

/-- `EPOLLRDHUP` is reported together with the end of the input and never before it, unless
`handle_recv` fails. -/
def HangsUpAtEnd (rdhup : Bool) (exit : RecvExit) : Prop :=
  exit ∈ [RecvExit.drained, .again, .disconnected] → (rdhup = true ↔ exit = .disconnected)

instance (rdhup : Bool) (exit : RecvExit) : Decidable (HangsUpAtEnd rdhup exit) :=
  inferInstanceAs (Decidable (_ → _))

theorem marks_alike_iff (rdhup : Bool) (exit : RecvExit) :
    marks epollV1 rdhup exit = marks epollV2 rdhup exit ↔ HangsUpAtEnd rdhup exit := by
  cases rdhup <;> cases exit <;> decide

/-- The smaller version has room for every connection and every report, and every hang-up
comes at the end of the input. -/
def Plain (world : World) : Label → Prop
  | .wait report => report.length ≤ epollV1.maxEvents + 1
  | .handle answers => ∀ event ∈ world.server.evs.head?,
      (event.ptr = 0 → world.server.conns < epollV1.maxConnections) ∧
        ∀ client ∈ world.server.heap event.ptr, event.events.epollin = true →
          client.shouldClose = true ∨
            HangsUpAtEnd event.events.epollrdhup (client.toClient.receive answers.recv).2

instance (world : World) : (label : Label) → Decidable (Plain world label)
  | .wait _ => inferInstanceAs (Decidable (_ ≤ _))
  | .handle _ => inferInstanceAs (Decidable (∀ event ∈ world.server.evs.head?, _))

theorem alike_of_plain {world : World} {label : Label} (plain : Plain world label) :
    Alike epollV1 epollV2 world label := by
  cases label with
  | wait report =>
      have small : report.length ≤ epollV1.maxEvents + 1 := plain
      refine ⟨small, le_trans small ?_⟩
      decide
  | handle answers =>
      intro event next
      obtain ⟨room, marking⟩ := plain event next
      refine ⟨fun isListener => ?_, fun client live readable => ?_⟩
      · have free := room isListener
        simp only [full, addConn, epollV1, epollV2] at free ⊢
        omega
      · exact (marking client live readable).imp_right (marks_alike_iff _ _).mpr

theorem plain_of_server {one two : World} {label : Label} (servers : one.server = two.server)
    (plain : Plain one label) : Plain two label := by
  cases label with
  | wait report => exact plain
  | handle answers =>
      intro event next
      rw [← servers] at next ⊢
      exact plain event next

/-- As long as the limits of the first version are not met and hang-ups come at the end of
the input, whatever one version can do, the other can do too: the same clients, the same
interest list, and the same system calls on every connection. -/
theorem epoll_versions_agree :
    (∀ one, Reachable (guarded (system epollV1) Plain) one →
      ∃ two, Reachable (guarded (system epollV2) Plain) two ∧ Same one two) ∧
    ∀ two, Reachable (guarded (system epollV2) Plain) two →
      ∃ one, Reachable (guarded (system epollV1) Plain) one ∧ Same one two := by
  constructor
  · intro one reached
    exact @reachable_alike epollV1 epollV2 Plain (fun _ _ _ => plain_of_server)
      (fun _ _ => alike_of_plain) one reached
  · intro two reached
    obtain ⟨one, reachedOne, same⟩ := @reachable_alike epollV2 epollV1 Plain
      (fun _ _ _ => plain_of_server) (fun _ _ plain => (alike_of_plain plain).symm) two reached
    exact ⟨one, reachedOne, same.symm⟩

/-- A line is echoed, and the peer hangs up. -/
theorem epoll_versions_agree_one_line :
    ∃ one two, Reachable (guarded (system epollV1) Plain) one ∧
      ConnEvent.close ∈ one.kernel.log 0 ∧ sent (one.kernel.log 0) = [97, newline] ∧
      Reachable (guarded (system epollV2) Plain) two ∧ Same one two := by
  obtain ⟨one, reached, closed, echoed⟩ := exists_reachable_of_run
    (guarded_next_sound Plain (next_sound epollV1)) ⟨3, true, by decide, rfl⟩
    (connect ++ arrive false (.ok [97, newline]) ++ arrive true (.ok []) ++ depart (.ok 4096))
    (fun world => ConnEvent.close ∈ world.kernel.log 0 ∧
      sent (world.kernel.log 0) = [97, newline]) (by decide +kernel)
  obtain ⟨two, reachedTwo, same⟩ := epoll_versions_agree.1 one reached
  exact ⟨one, two, reached, closed, echoed, reachedTwo, same⟩

end LinuxSystemPrograms.EpollServersAgree
