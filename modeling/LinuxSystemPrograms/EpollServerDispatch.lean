import LinuxSystemPrograms.EpollServerTable
import Mathlib.Data.List.Forall2

/-!
# Events of the epoll server reach the clients they were reported for

A batch is handled one event after the other while clients are freed, addresses and
descriptors are used again and new clients are added. `Handling` is the part of a run from
one call of `epoll_wait` to the next; what it says of the events still to come (`Target`)
survives every step, because a step touches the memory and the descriptor of its own event
and such as are not in use.
-/

namespace LinuxSystemPrograms.EpollServerDispatch

open LinuxSystemPrograms.EchoClient
open LinuxSystemPrograms.EpollServer
open LinuxSystemPrograms.EpollServerTable
open LinuxSystemPrograms.Sockets
open LinuxSystemPrograms.Transition

set_option autoImplicit false

variable {variant : Variant}

/-- A connection is closed once, and nothing is called on it afterwards. -/
def closedOnce (variant : Variant) : Law variant anyEvent where
  Open log _ _ := ConnEvent.close ∉ log
  Shut log := CloseLast log
  fresh _ _ := List.not_mem_nil
  refused := ⟨[], List.not_mem_nil, Or.inr rfl⟩
  read isOpen _ _ member := by
    rcases List.mem_append.mp member with early | now
    · exact isOpen early
    · exact read_stage_no_close _ _ _ _ _ _ now
  keep revents answers isOpen _ _ _ member := by
    rcases List.mem_append.mp member with early | now
    · exact isOpen early
    · exact write_stage_no_close _ _ _ _ _ now
  drop revents answers isOpen _ := by
    refine ⟨_, ?_, Or.inr rfl⟩
    intro member
    rcases List.mem_append.mp member with early | now
    · exact isOpen early
    · exact write_stage_no_close _ _ _ _ _ now

/-- The registered pointers are the allocated clients, each registered for a connection of its
own. -/
structure Exact (world : World) : Prop where
  allocated : ∀ ptr client, world.server.heap ptr = some client →
    ptr ≠ 0 ∧ (∃ id, world.kernel.file client.clientFd = .conn id) ∧
      ∃ entry, world.server.interest client.clientFd = some entry ∧ entry.ptr = ptr
  registered : ∀ fd entry, world.server.interest fd = some entry → entry.ptr ≠ 0 →
    ∃ client, world.server.heap entry.ptr = some client ∧ client.clientFd = fd
  distinct : ∀ ptr other client otherClient, world.server.heap ptr = some client →
    world.server.heap other = some otherClient → client.clientFd = otherClient.clientFd →
    ptr = other

theorem serving_exact {law : Law variant anyEvent} {world : World} (serving : Serving law world) :
    Exact world where
  allocated ptr client live := by
    obtain ⟨notNull, id, entry, owner, registered, own, _⟩ := serving.table.client ptr client live
    exact ⟨notNull, ⟨id, owner⟩, entry, registered, own⟩
  registered fd entry registered notNull := by
    rcases serving.table.registered fd entry registered with ⟨_, rfl⟩ | live
    · exact absurd rfl notNull
    · exact live
  distinct ptr other client otherClient live otherLive sameFd :=
    (serving.table.ptr_unique live otherLive sameFd.symm).symm

/-- `event` is what was reported for `ready` when `start` called `epoll_wait`: it points to
the listener, or to the client that had the descriptor then, still allocated, unchanged and
connected to the same peer. -/
def Target (start now : World) (ready : Fd × Events) (event : EpollEvent) : Prop :=
  event.events = ready.2 ∧ (event.ptr = 0 ∧ ready.1 = start.server.serverFd ∨
    ∃ client id, client.clientFd = ready.1 ∧
      start.server.heap event.ptr = some client ∧ start.kernel.file ready.1 = .conn id ∧
      now.server.heap event.ptr = some client ∧ now.kernel.file ready.1 = .conn id)

/-- From a call of `epoll_wait` on: the report that is still to be handled. -/
inductive Handling (variant : Variant) (first : World) (report : List (Fd × Events)) :
    List (Fd × Events) → World → Prop where
  | waited : Handling variant first report report first
  | handled {ready : Fd × Events} {rest : List (Fd × Events)} {now after : World}
      (answers : Answers) (earlier : Handling variant first report (ready :: rest) now)
      (taken : (system variant).step now (.handle answers) after) :
      Handling variant first report rest after

theorem handling_reachable {first now : World} {report rest : List (Fd × Events)}
    (reached : Reachable (system variant) first)
    (handling : Handling variant first report rest now) : Reachable (system variant) now := by
  induction handling with
  | waited => exact reached
  | handled answers _ taken ih => exact .next _ ih taken

/-- What one pass of the `for` loop leaves alone: every other allocated client, and every
other connection. -/
theorem handle_frame {law : Law variant anyEvent} {now after : World} {answers : Answers}
    (serving : Serving law now) (taken : (system variant).step now (.handle answers) after) :
    ∃ event rest, now.server.evs = event :: rest ∧ after.server.evs = rest ∧
      ∀ ptr client id, ptr ≠ event.ptr → now.server.heap ptr = some client →
        now.kernel.file client.clientFd = .conn id →
        after.server.heap ptr = some client ∧ after.kernel.file client.clientFd = .conn id := by
  obtain ⟨honest, advanced⟩ := taken
  cases evs : now.server.evs with
  | nil => simp [advance, evs] at advanced
  | cons event rest =>
      refine ⟨event, rest, rfl, ?_⟩
      simp only [advance, evs, Option.map_eq_some_iff] at advanced
      obtain ⟨done, dispatched, rfl⟩ := advanced
      refine ⟨rfl, ?_⟩
      intro ptr client id different live owner
      rcases dispatch_cases dispatched with
        rfl | ⟨fd, accepted, rfl⟩ | ⟨fd, fresh, accepted, allocated, _, rfl⟩ |
          ⟨served, handled, servedLive, _, outcome⟩
      · exact ⟨live, owner⟩
      · obtain ⟨_, unused⟩ := honest.1 fd (by simp [accepted, Except.toOption])
        exact ⟨live, by rw [Kernel.refuse_file unused, owner]⟩
      · obtain ⟨_, unused⟩ := honest.1 fd (by simp [accepted, Except.toOption])
        obtain ⟨_, free⟩ := honest.2 fresh allocated
        have notFresh : ptr ≠ fresh := by
          rintro rfl
          rw [free] at live
          cases live
        have notFd : client.clientFd ≠ fd := by
          intro same
          rw [same, unused] at owner
          cases owner
        constructor
        · exact (Function.update_of_ne notFresh _ _).trans live
        · exact (Kernel.open_file_other now.kernel notFd).trans owner
      · have otherFd := serving.table.fd_ne servedLive live different
        rcases outcome with ⟨_, rfl⟩ | ⟨_, rfl⟩
        · constructor
          · exact (Function.update_of_ne different _ _).trans live
          · exact (Kernel.exec_io_file_other now.kernel _ otherFd).trans owner
        · constructor
          · simp only [destroy]
            split_ifs
            · exact (Function.update_of_ne different _ _).trans live
            · exact (Function.update_of_ne different _ _).trans live
          · exact (Kernel.exec_io_file_other now.kernel _ otherFd).trans owner

/-- The batch as `epoll_wait` writes it. -/
theorem wait_targets {law : Law variant anyEvent} {start first : World}
    {report : List (Fd × Events)} (serving : Serving law start)
    (taken : (system variant).step start (.wait report) first) :
    List.Forall₂ (Target start first) report first.server.evs := by
  obtain ⟨⟨_, _, asked⟩, advanced⟩ := taken
  cases evs : start.server.evs with
  | cons event rest => simp [advance, evs] at advanced
  | nil =>
      simp only [advance, evs, Option.some.injEq] at advanced
      subst advanced
      have each : ∀ part, part ⊆ report → List.Forall₂ (Target start
          { start with server := { start.server with
              evs := EpollServer.batch start.server.interest report } }) part
          (EpollServer.batch start.server.interest part) := by
        intro part
        induction part with
        | nil => exact fun _ => .nil
        | cons ready rest ih =>
            intro inside
            rw [List.cons_subset] at inside
            obtain ⟨entry, registered, _⟩ := asked ready inside.1
            rw [Option.mem_def] at registered
            have batchEq : EpollServer.batch start.server.interest (ready :: rest) =
                ⟨ready.2, entry.ptr⟩ :: EpollServer.batch start.server.interest rest := by
              simp [EpollServer.batch, registered]
            rw [batchEq]
            refine .cons ⟨rfl, ?_⟩ (ih inside.2)
            rcases serving.table.registered ready.1 entry registered with
              ⟨listener, rfl⟩ | ⟨client, live, clientFd⟩
            · exact Or.inl ⟨rfl, listener⟩
            · obtain ⟨_, id, _, owner, _⟩ := serving.table.client entry.ptr client live
              rw [clientFd] at owner
              exact Or.inr ⟨client, id, clientFd, live, owner, live, owner⟩
      exact each report (List.Subset.refl report)

/-- What leaves the clients of the events still to come alone keeps their targets. -/
theorem targets_kept {start now after : World} {pointer : Ptr} {rest : List (Fd × Events)}
    {later : List EpollEvent}
    (frame : ∀ ptr client id, ptr ≠ pointer → now.server.heap ptr = some client →
      now.kernel.file client.clientFd = .conn id →
      after.server.heap ptr = some client ∧ after.kernel.file client.clientFd = .conn id)
    (targets : List.Forall₂ (Target start now) rest later)
    (others : ∀ event ∈ later, event.ptr ≠ pointer) :
    List.Forall₂ (Target start after) rest later := by
  induction targets with
  | nil => exact .nil
  | @cons ready event _ _ target _ ih =>
      obtain ⟨mask, pointed⟩ := target
      have different : event.ptr ≠ pointer := others event List.mem_cons_self
      refine .cons ⟨mask, ?_⟩
        (ih fun other member => others other (List.mem_cons_of_mem _ member))
      rcases pointed with null | ⟨client, id, clientFd, was, wasOwner, live, owner⟩
      · exact Or.inl null
      · rw [← clientFd] at owner
        obtain ⟨stillLive, stillOwner⟩ := frame event.ptr client id different live owner
        rw [clientFd] at stillOwner
        exact Or.inr ⟨client, id, clientFd, was, wasOwner, stillLive, stillOwner⟩

/-- While a batch is handled, the rest of it keeps its targets. -/
theorem handling_targets {start first now : World} {report rest : List (Fd × Events)}
    (reached : Reachable (system variant) start)
    (taken : (system variant).step start (.wait report) first)
    (handling : Handling variant first report rest now) :
    List.Forall₂ (Target start now) rest now.server.evs := by
  induction handling with
  | waited => exact wait_targets (reachable_serving_any (closedOnce variant) reached) taken
  | handled answers earlier step ih =>
      have reachedNow := handling_reachable (.next _ reached taken) earlier
      have serving := reachable_serving_any (closedOnce variant) reachedNow
      obtain ⟨event, later, evs, evsAfter, frame⟩ := handle_frame serving step
      have nodup := serving.batch.nodup
      rw [evs, List.map_cons, List.nodup_cons] at nodup
      rw [evs] at ih
      cases ih with
      | cons _ targets =>
          rw [evsAfter]
          apply targets_kept frame targets
          intro other member same
          exact nodup.1 (List.mem_map.mpr ⟨other, member, same⟩)

def OnOpen (kernel : Kernel Return) (action : Action Return) : Prop :=
  ∀ fd event, action = .io fd event → ∃ id, kernel.file fd = .conn id

/-- What the loop body does for an event: no pointer is followed to memory that is not
allocated, no call is made on a descriptor that is not open, and a client is freed together
with its connection. -/
structure Sound (world : World) (event : EpollEvent)
    (done : Server × List (Action Return)) : Prop where
  calls : world.kernel.Along OnOpen done.2
  freed : ∀ ptr client, world.server.heap ptr = some client → done.1.heap ptr = none →
    ptr = event.ptr ∧ Action.io client.clientFd .close ∈ done.2

theorem on_open_accept (kernel : Kernel Return) (fd : Fd) : OnOpen kernel (.accept fd) := by
  intro other event call
  cases call

theorem along_refused {kernel : Kernel Return} {fd : Fd} :
    kernel.Along OnOpen [.accept fd, .io fd .close] := by
  refine ⟨on_open_accept kernel fd, ?_, trivial⟩
  intro other event call
  cases call
  exact ⟨kernel.accepted, Kernel.open_file_same kernel _⟩

theorem along_on_open {kernel : Kernel Return} {fd : Fd} {id : Nat}
    (owner : kernel.file fd = .conn id) {events : List Event} (closeLast : CloseLast events) :
    kernel.Along OnOpen (events.map (.io fd)) := by
  apply Kernel.along_mono _ (Kernel.along_io closeLast)
  rintro now action ⟨event, _, rfl, file⟩ _ _ ⟨⟩
  exact ⟨id, file.trans owner⟩

theorem dispatch_sound {law : Law variant anyEvent} {world : World} (serving : Serving law world)
    {event : EpollEvent} {answers : Answers} {done : Server × List (Action Return)}
    (honest : Honest variant world (.handle answers))
    (dispatched : dispatch variant answers event world.server = some done) :
    Sound world event done := by
  rcases dispatch_cases dispatched with
    rfl | ⟨fd, _, rfl⟩ | ⟨fd, fresh, _, allocated, _, rfl⟩ |
      ⟨client, handled, live, handledEq, outcome⟩
  · exact ⟨trivial, fun ptr client live freed => by rw [live] at freed; cases freed⟩
  · exact ⟨along_refused, fun ptr client live freed => by rw [live] at freed; cases freed⟩
  · refine ⟨⟨on_open_accept world.kernel fd, trivial⟩, ?_⟩
    intro ptr client live freed
    obtain ⟨_, free⟩ := honest.2 fresh allocated
    by_cases same : ptr = fresh
    · rw [same, free] at live
      cases live
    · simp only [Function.update_of_ne same, live] at freed
      cases freed
  · obtain ⟨_, id, _, owner, _⟩ := serving.table.client event.ptr client live
    have noClose : ConnEvent.close ∉ handled.events := by
      rw [handledEq]
      exact serve_event_no_close _ _ _ _ _
    rcases outcome with ⟨_, rfl⟩ | ⟨_, rfl⟩
    · refine ⟨along_on_open owner ⟨_, noClose, Or.inl rfl⟩, ?_⟩
      intro ptr other otherLive freed
      by_cases same : ptr = event.ptr
      · simp [same] at freed
      · simp only [Function.update_of_ne same, otherLive] at freed
        cases freed
    · refine ⟨along_on_open owner ⟨_, noClose, Or.inr rfl⟩, ?_⟩
      intro ptr other otherLive freed
      by_cases same : ptr = event.ptr
      · rw [same, live, Option.some.injEq] at otherLive
        subst otherLive
        exact ⟨same, by simp⟩
      · have kept : (destroy (if handled.ret = -1 then world.server else dropConn world.server)
            event.ptr client.clientFd).heap ptr = world.server.heap ptr := by
          simp only [destroy, Function.update_of_ne same]
          split_ifs <;> rfl
        rw [kept, otherLive] at freed
        cases freed

/-- Between the calls of `epoll_wait` and while a batch is handled, in whatever order clients
are freed and added. -/
structure DispatchesLive (variant : Variant) (world : World) : Prop where
  clients : Exact world
  closedOnce : ∀ id, CloseLast (world.kernel.log id)
  body : ∀ event rest answers, world.server.evs = event :: rest →
    Honest variant world (.handle answers) →
    ∃ done, dispatch variant answers event world.server = some done ∧ Sound world event done
  batch : ∀ report first, (system variant).step world (.wait report) first →
    ∀ rest now, Handling variant first report rest now →
      List.Forall₂ (Target world now) rest now.server.evs

theorem reachable_dispatches_live {world : World} (reached : Reachable (system variant) world) :
    DispatchesLive variant world := by
  have serving := reachable_serving_any (closedOnce variant) reached
  constructor
  case clients => exact serving_exact serving
  case closedOnce =>
    intro id
    apply serving.table.every_log
    · exact ⟨[], List.not_mem_nil, Or.inl rfl⟩
    · intro log client entry isOpen
      exact ⟨log, isOpen, Or.inl rfl⟩
    · intro log shut
      exact shut
  case body =>
    intro event rest answers evs honest
    obtain ⟨done, dispatched⟩ := Option.isSome_iff_exists.mp (dispatch_defined serving evs answers)
    exact ⟨done, dispatched, dispatch_sound serving honest dispatched⟩
  case batch =>
    intro report first taken rest now handling
    exact handling_targets reached taken handling

/-- Events of `tcp_epoll_server_v2` are only dispatched to live clients. -/
theorem events_reach_live_clients {world : World}
    (reached : Reachable (system epollV2) world) : DispatchesLive epollV2 world :=
  reachable_dispatches_live reached

theorem events_reach_live_clients_reused :
    ∃ world, Reachable (system epollV2) world ∧ world.server.evs.length = 1 ∧
      world.kernel.accepted = 2 ∧ DispatchesLive epollV2 world := by
  -- one batch closes descriptor 5 and accepts it again, at the same address
  obtain ⟨world, reached, pending, twice⟩ := exists_reachable_of_run (next_sound epollV2)
    ⟨3, true, by decide, rfl⟩
    (connect ++ arrive false (.ok [97, newline]) ++
      [.wait [(5, .readWrite), (3, .listen)],
        .handle { quiet with recv := .ok [], send := .ok 2 },
        .handle { quiet with accept := .ok 5, malloc := some 1 },
        .wait [(5, .listen)]])
    (fun world => world.server.evs.length = 1 ∧ world.kernel.accepted = 2) (by decide +kernel)
  exact ⟨world, reached, pending, twice, events_reach_live_clients reached⟩

end LinuxSystemPrograms.EpollServerDispatch
