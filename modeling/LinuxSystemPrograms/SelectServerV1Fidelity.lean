import LinuxSystemPrograms.SelectServerV1Table
import LinuxSystemPrograms.SelectServerV2Fidelity

/-!
# Stream fidelity of the first select server

`Balanced` relates a roster to the kernel: every open connection is in it, with buffers that
balance with the connection's log. A turn keeps it, whatever table the roster stands for.
The loop of the first server adds that it never leaves `client`: what is reported behind
`i` is a connection, and only those have an index.
-/

namespace LinuxSystemPrograms.SelectServerV1Fidelity

open LinuxSystemPrograms.ConnectionAccount
open LinuxSystemPrograms.EchoBuffers
open LinuxSystemPrograms.EchoClient
open LinuxSystemPrograms.SelectRoster
open LinuxSystemPrograms.SelectServerV1
open LinuxSystemPrograms.SelectServerV1Table
open LinuxSystemPrograms.SelectServerV2 (FdSet Round Selected fdSet recvCode)
open LinuxSystemPrograms.SelectServerV2Fidelity (Settled settled_receive)
open LinuxSystemPrograms.Sockets
open LinuxSystemPrograms.Transition

set_option autoImplicit false

/-! ## The roster and the kernel -/

structure Balanced (kernel : Kernel Return) (roster : Roster) : Prop where
  formed : kernel.WellFormed
  entry : ∀ fd buffers, roster fd = some buffers →
    ∃ id, kernel.file fd = .conn id ∧ Settled (kernel.log id) buffers.echo
  owned : ∀ fd id, kernel.file fd = .conn id → (roster fd).isSome = true
  prefixes : ∀ id, EchoesPrefix (kernel.log id)

theorem boot_balanced (serverFd : Fd) : Balanced (Kernel.boot serverFd) fun _ => none where
  formed := Kernel.boot_well_formed serverFd
  entry _ _ absent := by cases absent
  owned fd id owner := by
    by_cases same : fd = serverFd <;> simp [Kernel.boot, same] at owner
  prefixes _ := echoes_prefix_nil

section Turns

variable {kernel : Kernel Return} {roster : Roster} {fd : Fd} {id : Nat} {buffers : Buffers}
  {events : List Event}

/-- The connections of two descriptors are two connections. -/
theorem other_connection (balanced : Balanced kernel roster) (owner : kernel.file fd = .conn id)
    {other : Fd} {otherId : Nat} (different : other ≠ fd)
    (otherOwner : kernel.file other = .conn otherId) : otherId ≠ id := by
  rintro rfl
  exact different (balanced.formed.single other fd otherId otherOwner owner)

theorem keep_connection (balanced : Balanced kernel roster) (owner : kernel.file fd = .conn id)
    (noClose : ConnEvent.close ∉ events) (settled : Settled (kernel.log id ++ events) buffers.echo)
    (prefixes : EchoesPrefix (kernel.log id ++ events)) :
    Balanced (kernel.record id events) (Function.update roster fd (some buffers)) where
  formed := Kernel.record_well_formed balanced.formed owner noClose
  entry other found present := by
    by_cases same : other = fd
    · subst same
      rw [Function.update_self, Option.some.injEq] at present
      rw [← present]
      exact ⟨id, owner, by rw [Kernel.record_log_same]; exact settled⟩
    · rw [Function.update_of_ne same] at present
      obtain ⟨otherId, otherOwner, otherSettled⟩ := balanced.entry other found present
      have different := other_connection balanced owner same otherOwner
      exact ⟨otherId, otherOwner, by
        rw [Kernel.record_log_other _ _ different]; exact otherSettled⟩
  owned other otherId otherOwner := by
    by_cases same : other = fd
    · rw [same, Function.update_self]
      rfl
    · rw [Function.update_of_ne same]
      exact balanced.owned other otherId otherOwner
  prefixes otherId := by
    by_cases same : otherId = id
    · rw [same, Kernel.record_log_same]
      exact prefixes
    · rw [Kernel.record_log_other _ _ same]
      exact balanced.prefixes otherId

theorem drop_connection (balanced : Balanced kernel roster) (owner : kernel.file fd = .conn id)
    (prefixes : EchoesPrefix (kernel.log id ++ events)) :
    Balanced ((kernel.record id (events ++ [.close])).release fd)
      (Function.update roster fd none) where
  formed := Kernel.close_well_formed balanced.formed owner events
  entry other found present := by
    by_cases same : other = fd
    · rw [same, Function.update_self] at present
      cases present
    · rw [Function.update_of_ne same] at present
      obtain ⟨otherId, otherOwner, otherSettled⟩ := balanced.entry other found present
      have different := other_connection balanced owner same otherOwner
      refine ⟨otherId, ?_, ?_⟩
      · rw [Kernel.release_file_other _ same]
        exact otherOwner
      · rw [Kernel.release_log, Kernel.record_log_other _ _ different]
        exact otherSettled
  owned other otherId otherOwner := by
    have same : other ≠ fd := by
      rintro rfl
      rw [Kernel.release_file_same] at otherOwner
      cases otherOwner
    rw [Kernel.release_file_other _ same] at otherOwner
    rw [Function.update_of_ne same]
    exact balanced.owned other otherId otherOwner
  prefixes otherId := by
    rw [Kernel.release_log]
    by_cases same : otherId = id
    · rw [same, Kernel.record_log_same, ← List.append_assoc]
      exact echoes_prefix_close prefixes
    · rw [Kernel.record_log_other _ _ same]
      exact balanced.prefixes otherId

/-- A handler, and the `close` that follows when it returns -1. -/
theorem balanced_or_close (balanced : Balanced kernel roster) (owner : kernel.file fd = .conn id)
    (code : Int) (noClose : ConnEvent.close ∉ events)
    (settled : code ≠ -1 → Settled (kernel.log id ++ events) buffers.echo)
    (prefixes : EchoesPrefix (kernel.log id ++ events)) :
    Balanced (kernel.exec ((orClose code buffers events).2.map (.io fd)))
      (Function.update roster fd (orClose code buffers events).1) := by
  unfold orClose
  by_cases failed : code = -1
  · rw [if_pos failed, Kernel.exec_io_close owner _ noClose]
    exact drop_connection balanced owner prefixes
  · rw [if_neg failed, Kernel.exec_io_open owner _ noClose]
    exact keep_connection balanced owner noClose (settled failed) prefixes

theorem balanced_untouched (balanced : Balanced kernel roster) (present : roster fd = some buffers) :
    Balanced (kernel.exec (([] : List Event).map (.io fd)))
      (Function.update roster fd (some buffers)) := by
  rw [← present, Function.update_eq_self]
  exact balanced

theorem balanced_read (balanced : Balanced kernel roster) (present : roster fd = some buffers)
    (readable : Bool) (ready : RecvResult) :
    Balanced (kernel.exec ((serveRead readable ready buffers).2.map (.io fd)))
      (Function.update roster fd (serveRead readable ready buffers).1) := by
  obtain ⟨id, owner, settled⟩ := balanced.entry fd buffers present
  cases readable with
  | false => exact balanced_untouched balanced present
  | true =>
      apply balanced_or_close balanced owner
      · exact recv_events_no_close _ _ _
      · exact settled_receive settled _
      · exact echoes_prefix_receive (balanced.prefixes id) _ _ _

theorem balanced_write (balanced : Balanced kernel roster) (present : roster fd = some buffers)
    (sendCode : SendExit → Int) (writable : Bool) (room : SendResult) :
    Balanced (kernel.exec ((serveWrite sendCode writable room buffers).2.map (.io fd)))
      (Function.update roster fd (serveWrite sendCode writable room buffers).1) := by
  obtain ⟨id, owner, settled⟩ := balanced.entry fd buffers present
  cases writable with
  | false => exact balanced_untouched balanced present
  | true =>
      apply balanced_or_close balanced owner
      · exact send_events_no_close _ _ _
      · intro _
        refine ⟨accounted_flush settled.1 _ _, ?_⟩
        have part := (sent_send_events sendCode buffers.echo
          (send buffers.echo.queued.length room)).2
        simp only [Buffers.flush]
        rw [part]
        exact settled.2
      · exact echoes_prefix_flush (balanced.prefixes id) settled.1.within _ _

theorem balanced_serve (balanced : Balanced kernel roster) (sendCode : SendExit → Int)
    (round : Round) (readfds writefds : FdSet) (fd : Fd) :
    Balanced
      (kernel.exec ((serve sendCode round readfds writefds fd (roster fd)).2.map (.io fd)))
      (Function.update roster fd (serve sendCode round readfds writefds fd (roster fd)).1) := by
  cases present : roster fd with
  | none =>
      rw [serve_none, ← present, Function.update_eq_self]
      exact balanced
  | some buffers =>
      have reading := balanced_read balanced present (readfds fd) (round.recv fd)
      cases servedEq : serveRead (readfds fd) (round.recv fd) buffers with
      | mk left events =>
          rw [servedEq] at reading
          cases left with
          | none =>
              rw [serve_closed servedEq]
              exact reading
          | some middle =>
              have writing := balanced_write reading (Function.update_self fd (some middle) roster)
                sendCode (writefds fd) (round.send fd)
              rw [Function.update_idem] at writing
              rw [serve_open servedEq, List.map_append, Kernel.exec_append]
              exact writing

theorem balanced_accept (balanced : Balanced kernel roster) (valid : 0 ≤ fd)
    (unused : kernel.file fd = .closed) :
    Balanced (kernel.openConn fd) (Function.update roster fd (some Buffers.empty)) where
  formed := Kernel.open_well_formed balanced.formed valid unused
  entry other found present := by
    by_cases same : other = fd
    · subst same
      rw [Function.update_self, Option.some.injEq] at present
      refine ⟨kernel.accepted, Kernel.open_file_same kernel other, ?_⟩
      rw [← present, Kernel.open_log, balanced.formed.fresh _ (Nat.le_refl _)]
      exact ⟨accounted_empty, List.not_mem_nil⟩
    · rw [Function.update_of_ne same] at present
      obtain ⟨id, owner, settled⟩ := balanced.entry other found present
      exact ⟨id, (Kernel.open_file_other kernel same).trans owner, settled⟩
  owned other id owner := by
    by_cases same : other = fd
    · rw [same, Function.update_self]
      rfl
    · rw [Kernel.open_file_other _ same] at owner
      rw [Function.update_of_ne same]
      exact balanced.owned other id owner
  prefixes := balanced.prefixes

/-- A connection that is closed as soon as it is accepted is in no roster. -/
theorem balanced_refuse (balanced : Balanced kernel roster) (valid : 0 ≤ fd)
    (unused : kernel.file fd = .closed) :
    Balanced (kernel.exec [.accept fd, .io fd .close]) roster where
  formed := Kernel.refuse_well_formed balanced.formed valid unused
  entry other found present := by
    obtain ⟨id, owner, settled⟩ := balanced.entry other found present
    refine ⟨id, by rw [Kernel.refuse_file unused, owner], ?_⟩
    have old := Nat.ne_of_lt (balanced.formed.owner _ _ owner).2
    rw [Kernel.refuse_log_other _ _ old]
    exact settled
  owned other id owner := by
    rw [Kernel.refuse_file unused] at owner
    exact balanced.owned other id owner
  prefixes id := by
    by_cases newest : id = kernel.accepted
    · rw [newest, Kernel.refuse_log_new balanced.formed]
      exact echoes_prefix_close echoes_prefix_nil
    · rw [Kernel.refuse_log_other _ _ newest]
      exact balanced.prefixes id

end Turns

/-! ## The loop -/

/-- What the loop may rely on at `i`, whatever `accept` returns later. -/
abbrev Table (round : Round) (server : Server) (roster : Roster) (i : Fd) : Prop :=
  Ready { round with accept := .error .eagain } server roster i

/-- The loop body has led from one roster to the other. -/
structure Visited (round : Round) (server : Server) (roster : Roster) (i : Fd) (visited : Server)
    (actions : List (Action Return)) (rosterAfter : Roster) : Prop where
  table : Table round visited rosterAfter (i + 1)
  serverFd : visited.serverFd = server.serverFd
  balanced : ∀ kernel, Balanced kernel roster → kernel.Admits actions →
    Balanced (kernel.exec actions) rosterAfter

section Loop

variable {round : Round} {server : Server} {roster : Roster} {i : Fd}

theorem visited_turn (table : Table round server roster i)
    (notAccepting : ¬(server.readfds i = true ∧ i = server.serverFd)) :
    ∃ visited actions rosterAfter, visit round server i = some (visited, actions) ∧
      Visited round server roster i visited actions rosterAfter := by
  obtain ⟨visited, actions, result, refines⟩ := visit_turn table notAccepting
  have same : visit { round with accept := .error .eagain } server i = visit round server i := by
    rw [visit, visit, if_neg notAccepting, if_neg notAccepting]
    rfl
  rw [same] at result
  refine ⟨visited, actions, _, result, ready_after_turn table refines, refines.bounds.1, ?_⟩
  intro kernel balanced _
  rw [refines.calls]
  exact balanced_serve balanced sendCode _ server.readfds server.writefds i

/-- Where nothing is added to what is reported, the rest of the loop is as before. -/
theorem table_next (table : Table round server roster i) {visited : Server}
    {rosterAfter : Roster} (represents : Represents visited rosterAfter)
    (serverFd : visited.serverFd = server.serverFd)
    (sets : visited.readfds = server.readfds ∧ visited.writefds = server.writefds)
    (grows : ∀ fd, (roster fd).isSome = true → (rosterAfter fd).isSome = true) :
    Table round visited rosterAfter (i + 1) where
  represents := represents
  reported fd later notServer reported := by
    rw [serverFd] at notServer
    rw [sets.1, sets.2] at reported
    exact grows fd (table.reported fd (le_of_next_le later) notServer reported)
  listener := by
    rw [sets.2, serverFd]
    exact table.listener
  accept _ _ fd result := by cases result

/-- A record that is in use keeps its connection and its queue when `accept` returns its
descriptor again; a free one becomes an empty connection. -/
theorem represents_opened (represents : Represents server roster) {slot : Index}
    (notServer : fdOf slot ≠ server.serverFd) :
    ∃ buffers, Represents (opened server slot (fdOf slot))
        (Function.update roster (fdOf slot) (some buffers)) ∧
      (roster (fdOf slot) = none → buffers = Buffers.empty) := by
  let taken : Client := { server.client slot with
    clientFd := fdOf slot
    used := 0
    usedBound := Nat.zero_le _ }
  have holds := holds_update represents.holds
    (Or.inl ⟨rfl, rfl⟩ : taken.clientFd = fdOf slot ∧ some (contents taken) = some (contents taken) ∨
      taken.clientFd = -1 ∧ some (contents taken) = none ∧ contents taken = Buffers.empty)
  rcases represents.holds.entry slot with ⟨_, busy⟩ | ⟨_, unused, free⟩
  · have isSome : (roster (fdOf slot)).isSome = true := by
      rw [busy]
      rfl
    have watched := represents.watches.read (fdOf slot)
    rw [isSome, Bool.or_true] at watched
    have read : fdSet server.masterRead (fdOf slot) = server.masterRead := by
      rw [fdSet, ← watched, Function.update_eq_self]
    have bound : max server.maxFds (fdOf slot) = server.maxFds :=
      max_eq_left (represents.watches.bound.2 _ isSome)
    have kept : server.masterWrite (fdOf slot) = pending (contents taken) :=
      (watches_write_bit represents.watches busy).trans rfl
    refine ⟨contents taken, ⟨holds, ?_⟩, ?_⟩
    · simp only [opened, read, bound]
      exact watches_kept represents.watches isSome (fun _ _ => rfl) kept
    · intro unused
      rw [unused] at busy
      cases busy
  · have empty : contents taken = Buffers.empty := contents_reused free _
    rw [empty] at holds
    exact ⟨Buffers.empty, ⟨holds, watches_opened represents.watches notServer unused⟩,
      fun _ => rfl⟩

theorem visited_accept (table : Table round server roster server.serverFd)
    (valid : ∀ fd, round.accept = .ok fd → 0 ≤ fd ∧ fd ≠ server.serverFd) :
    ∃ visited actions rosterAfter, acceptClient round server = some (visited, actions) ∧
      Visited round server roster server.serverFd visited actions rosterAfter := by
  cases result : round.accept with
  | error reason =>
      refine ⟨server, [], roster, accept_error result, ?_, rfl, fun _ balanced _ => balanced⟩
      exact table_next table table.represents rfl ⟨rfl, rfl⟩ fun _ present => present
  | ok fd =>
      obtain ⟨nonneg, notServer⟩ := valid fd result
      by_cases large : fd ≥ maxConnections
      · refine ⟨server, _, roster, accept_refused result large, ?_, rfl, ?_⟩
        · exact table_next table table.represents rfl ⟨rfl, rfl⟩ fun _ present => present
        · intro kernel balanced admitted
          exact balanced_refuse balanced admitted.1 admitted.2.1
      · have found : ∃ slot, fd = fdOf slot := by
          refine ⟨⟨fd.toNat, ?_⟩, (Int.toNat_of_nonneg nonneg).symm⟩
          exact (Int.toNat_lt nonneg).mpr (not_le.mp large)
        obtain ⟨slot, rfl⟩ := found
        obtain ⟨buffers, represents, fresh⟩ := represents_opened table.represents notServer
        refine ⟨opened server slot (fdOf slot), [.accept (fdOf slot)],
          Function.update roster (fdOf slot) (some buffers), ?_, ?_, rfl, ?_⟩
        · rw [accept_opened result large, index_fd_of]
          rfl
        · apply table_next table represents rfl ⟨rfl, rfl⟩
          intro fd present
          by_cases same : fd = fdOf slot
          · rw [same, Function.update_self]
            rfl
          · rwa [Function.update_of_ne same]
        · intro kernel balanced admitted
          have unused : roster (fdOf slot) = none := by
            cases present : roster (fdOf slot) with
            | none => rfl
            | some held =>
                obtain ⟨id, owner, _⟩ := balanced.entry _ held present
                rw [admitted.2.1] at owner
                cases owner
          rw [fresh unused]
          exact balanced_accept balanced admitted.1 admitted.2.1

/-- One iteration; what `accept` returns matters only where the loop comes to it. -/
theorem visit_visited (table : Table round server roster i)
    (valid : server.readfds i = true ∧ i = server.serverFd →
      ∀ fd, round.accept = .ok fd → 0 ≤ fd ∧ fd ≠ server.serverFd) :
    ∃ visited actions rosterAfter, visit round server i = some (visited, actions) ∧
      Visited round server roster i visited actions rosterAfter := by
  by_cases accepting : server.readfds i = true ∧ i = server.serverFd
  · obtain ⟨reported, rfl⟩ := accepting
    obtain ⟨visited, actions, rosterAfter, result, moved⟩ :=
      visited_accept table (valid ⟨reported, rfl⟩)
    refine ⟨visited, actions, rosterAfter, ?_, moved⟩
    rw [visit, if_pos ⟨reported, rfl⟩, result]
  · exact visited_turn table accepting

/-- A call of `accept` that the kernel admits returns a descriptor of its own. -/
theorem valid_of_admits {visited : Server} {actions : List (Action Return)}
    {kernel : Kernel Return} (result : visit round server i = some (visited, actions))
    (listening : kernel.file server.serverFd = .listener) (admitted : kernel.Admits actions)
    (accepting : server.readfds i = true ∧ i = server.serverFd) (fd : Fd)
    (accepted : round.accept = .ok fd) : 0 ≤ fd ∧ fd ≠ server.serverFd := by
  have called : ∃ rest, actions = .accept fd :: rest := by
    rw [visit, if_pos accepting] at result
    by_cases large : fd ≥ maxConnections
    · rw [accept_refused accepted large] at result
      cases result
      exact ⟨_, rfl⟩
    · rw [accept_opened accepted large] at result
      obtain ⟨slot, _, same⟩ := Option.map_eq_some_iff.mp result
      cases same
      exact ⟨_, rfl⟩
  obtain ⟨rest, rfl⟩ := called
  refine ⟨admitted.1, ?_⟩
  rintro rfl
  have unused := admitted.2.1
  rw [listening] at unused
  cases unused

/-- The loop stays inside of `client`. -/
theorem scan_defined (round : Round) (i : Fd) (server : Server) :
    ∀ roster, Table round server roster i →
      (∀ fd, round.accept = .ok fd → 0 ≤ fd ∧ fd ≠ server.serverFd) →
      ∃ scanned, scan round i server = some scanned := by
  induction i, server using scan.induct round with
  | case1 i server more failed =>
      intro roster table valid
      obtain ⟨visited, actions, _, result, _⟩ := visit_visited table fun _ => valid
      rw [failed] at result
      cases result
  | case2 i server more visited actions result ih =>
      intro roster table valid
      obtain ⟨next, nextActions, rosterAfter, nextResult, moved⟩ :=
        visit_visited table fun _ => valid
      rw [result] at nextResult
      cases nextResult
      rw [← moved.serverFd] at valid
      obtain ⟨scanned, scannedResult⟩ := ih rosterAfter moved.table valid
      refine ⟨(scanned.1, actions ++ scanned.2), ?_⟩
      rw [scan, dif_pos more]
      split
      · simp_all
      · simp_all
  | case3 i server stop =>
      intro roster table valid
      exact ⟨(server, []), by rw [scan, dif_neg stop]⟩

theorem scan_balanced (round : Round) (i : Fd) (server : Server) :
    ∀ roster kernel after actions, scan round i server = some (after, actions) →
      Table round server roster i → Balanced kernel roster →
      kernel.file server.serverFd = .listener → kernel.Admits actions →
      ∃ rosterAfter, Represents after rosterAfter ∧
        Balanced (kernel.exec actions) rosterAfter ∧ after.serverFd = server.serverFd := by
  induction i, server using scan.induct round with
  | case1 i server more failed =>
      intro roster kernel after actions result
      rw [scan, dif_pos more] at result
      split at result
      · cases result
      · simp_all
  | case2 i server more visited first visitResult ih =>
      intro roster kernel after actions result table balanced listening admitted
      have split : ∃ later, scan round (i + 1) visited = some (after, later) ∧
          actions = first ++ later := by
        rw [scan, dif_pos more] at result
        split at result
        · cases result
        · rename_i same
          rw [visitResult, Option.some.injEq, Prod.mk.injEq] at same
          obtain ⟨⟨scanned, later⟩, scannedResult, composed⟩ := Option.map_eq_some_iff.mp result
          rw [Prod.mk.injEq] at composed
          obtain ⟨rfl, rfl⟩ := composed
          obtain ⟨rfl, rfl⟩ := same
          exact ⟨later, scannedResult, rfl⟩
      obtain ⟨later, rest, rfl⟩ := split
      rw [Kernel.admits_append] at admitted
      obtain ⟨next, nextActions, rosterAfter, nextResult, moved⟩ := visit_visited table
        (valid_of_admits visitResult listening admitted.1)
      rw [visitResult] at nextResult
      cases nextResult
      have listeningAfter : (kernel.exec first).file visited.serverFd = .listener := by
        rw [moved.serverFd]
        exact Kernel.exec_listener listening admitted.1
      obtain ⟨final, represents, finalBalanced, sameFd⟩ := ih rosterAfter (kernel.exec first) after
        later rest moved.table (moved.balanced kernel balanced admitted.1) listeningAfter admitted.2
      refine ⟨final, represents, ?_, sameFd.trans moved.serverFd⟩
      rw [Kernel.exec_append]
      exact finalBalanced
  | case3 i server stop =>
      intro roster kernel after actions result table balanced listening admitted
      rw [scan, dif_neg stop] at result
      cases result
      exact ⟨roster, table.represents, balanced, rfl⟩

end Loop

/-! ## Every run -/

def system : System World Selected where
  init world := ∃ serverFd, 0 ≤ serverFd ∧ world = ⟨boot serverFd, Kernel.boot serverFd⟩
  step world selected after := ∃ actions,
    SelectServerV1.pass world.server selected = some (after.server, actions) ∧
      world.kernel.Admits actions ∧ after.kernel = world.kernel.exec actions

structure Serving (world : World) (roster : Roster) : Prop where
  represents : Represents world.server roster
  sets : world.server.readfds = world.server.masterRead ∧
    world.server.writefds = world.server.masterWrite
  balanced : Balanced world.kernel roster
  listening : world.kernel.file world.server.serverFd = .listener

theorem boot_serving (serverFd : Fd) :
    Serving ⟨boot serverFd, Kernel.boot serverFd⟩ fun _ => none where
  represents :=
    { holds :=
        { entry := fun _ => Or.inr ⟨rfl, rfl, init_contents⟩
          owned := fun _ isSome => Bool.noConfusion isSome }
      watches := watches_listener serverFd }
  sets := ⟨rfl, rfl⟩
  balanced := boot_balanced serverFd
  listening := Kernel.boot_file_listener serverFd

theorem select_table {world : World} {roster : Roster} (serving : Serving world roster)
    (round : Round) : Table round (select round world.server) roster 0 :=
  @select_ready { round with accept := .error .eagain } world.server roster serving.represents
    serving.sets fun _ _ result => by cases result

theorem step_serving {world after : World} {roster : Roster} {selected : Selected}
    (serving : Serving world roster) (stepped : system.step world selected after) :
    ∃ rosterAfter, Serving after rosterAfter := by
  obtain ⟨actions, passed, admitted, kernelEq⟩ := stepped
  cases selected with
  | interrupted =>
      simp only [SelectServerV1.pass, Option.some.injEq, Prod.mk.injEq] at passed
      obtain ⟨serverEq, rfl⟩ := passed
      rw [Kernel.exec_nil] at kernelEq
      obtain rfl : after = world := by
        cases after
        cases world
        exact congrArg₂ World.mk serverEq.symm kernelEq
      exact ⟨roster, serving⟩
  | failed => cases passed
  | ready round =>
      simp only [SelectServerV1.pass, serveRound, Option.map_eq_some_iff, Prod.mk.injEq] at passed
      obtain ⟨⟨scanned, calls⟩, result, serverEq, rfl⟩ := passed
      obtain ⟨rosterAfter, represents, balanced, sameFd⟩ := scan_balanced round 0
        (select round world.server) roster world.kernel scanned calls result
        (select_table serving round) serving.balanced serving.listening admitted
      refine ⟨rosterAfter, ?_, ?_, ?_, ?_⟩
      · rw [← serverEq]
        exact represents_reload represents
      · rw [← serverEq]
        exact ⟨rfl, rfl⟩
      · rw [kernelEq]
        exact balanced
      · have sameServerFd : after.server.serverFd = world.server.serverFd := by
          rw [← serverEq]
          exact sameFd
        rw [kernelEq, sameServerFd]
        exact Kernel.exec_listener serving.listening admitted

theorem reachable_serving {world : World} (reached : Reachable system world) :
    ∃ roster, Serving world roster := by
  apply reachable_invariant _ _ reached
  · rintro _ ⟨serverFd, _, rfl⟩
    exact ⟨_, boot_serving serverFd⟩
  · rintro world selected after _ ⟨roster, serving⟩ stepped
    exact step_serving serving stepped

/-- At every call of `select` the first server echoes what it has received, watches every
connection for reading and those with a queue for writing, and its next pass stays inside of
`client`, whatever the kernel reports. -/
theorem select_v1_stream_fidelity {world : World} (reached : Reachable system world) :
    (∀ round, (∀ fd, round.accept = .ok fd → 0 ≤ fd ∧ fd ≠ world.server.serverFd) →
      ∃ after, world.next (.ready round) = some after) ∧
    (∀ fd id, world.kernel.file fd = .conn id → ∃ slot, fd = fdOf slot ∧
      (world.server.client slot).clientFd = fd ∧
      sent (world.kernel.log id) ++ (world.server.client slot).queued ++
        (world.server.client slot).part = received (world.kernel.log id) ∧
      newline ∉ (world.server.client slot).part ∧
      world.server.masterRead fd = true ∧ fd ≤ world.server.maxFds ∧
      (world.server.masterWrite fd = true ↔ (world.server.client slot).queued ≠ [])) ∧
    ∀ id, EchoesPrefix (world.kernel.log id) := by
  obtain ⟨roster, serving⟩ := reachable_serving reached
  refine ⟨?_, ?_, serving.balanced.prefixes⟩
  · intro round valid
    obtain ⟨scanned, result⟩ := scan_defined round 0 (select round world.server) roster
      (select_table serving round) valid
    exact ⟨_, by rw [World.next, SelectServerV1.pass, serveRound, result]; rfl⟩
  · intro fd id owner
    have isSome := serving.balanced.owned fd id owner
    obtain ⟨slot, rfl⟩ := serving.represents.holds.owned fd isSome
    obtain ⟨sameFd, present⟩ := holds_busy serving.represents.holds isSome
    obtain ⟨otherId, otherOwner, settled⟩ := serving.balanced.entry _ _ present
    obtain rfl : id = otherId := by
      rw [owner, File.conn.injEq] at otherOwner
      exact otherOwner
    have watches := serving.represents.watches
    refine ⟨slot, rfl, sameFd, settled.1, settled.2, ?_, watches.bound.2 _ isSome, ?_⟩
    · rw [watches.read, isSome, Bool.or_true]
    · rw [watches_write_bit watches present]
      exact pending_contents _

def admittedNext (world : World) (selected : Selected) : Option World :=
  (SelectServerV1.pass world.server selected).bind fun passed =>
    if world.kernel.Admits passed.2 then some ⟨passed.1, world.kernel.exec passed.2⟩ else none

theorem admitted_next_sound (world : World) (selected : Selected) (after : World)
    (result : admittedNext world selected = some after) : system.step world selected after := by
  obtain ⟨⟨server, actions⟩, passed, admits⟩ := Option.bind_eq_some_iff.mp result
  simp only at admits
  split_ifs at admits with admitted
  rw [Option.some.injEq] at admits
  rw [← admits]
  exact ⟨actions, passed, admitted, rfl⟩

theorem select_v1_stream_fidelity_one_byte :
    ∃ world, Reachable system world ∧ sent (world.kernel.log 0) = [97] ∧
      received (world.kernel.log 0) = [97, newline, 98] ∧
      EchoesPrefix (world.kernel.log 0) := by
  obtain ⟨world, reached, bytes⟩ := exists_reachable_of_run admitted_next_sound
    (show system.init ⟨boot 3, Kernel.boot 3⟩ from ⟨3, by decide, rfl⟩)
    (SelectServerV2Fidelity.oneByteBack.map .ready)
    (fun world => sent (world.kernel.log 0) = [97] ∧
      received (world.kernel.log 0) = [97, newline, 98]) (by decide +kernel)
  exact ⟨world, reached, bytes.1, bytes.2, (select_v1_stream_fidelity reached).2.2 0⟩

end LinuxSystemPrograms.SelectServerV1Fidelity
