import LinuxSystemPrograms.EpollServer

/-!
# The clients of the epoll server

`Table` relates the heap, the interest list and the kernel: every allocated client is
registered under its own address for one open connection, and nothing else is registered
but the listener. `Batch` says that the events still to be handled point to such clients.
Both hold in every run, so no step of the loop body touches freed memory.

What a claim says about one client is a `Law`: what holds of its log, its record and its
registration while it is open, and of its log once it is closed. A law is proved for the
two branches of the loop body; `reachable_serving` carries it over runs.
-/

namespace LinuxSystemPrograms.EpollServerTable

open LinuxSystemPrograms.ConnectionAccount
open LinuxSystemPrograms.EchoClient
open LinuxSystemPrograms.EpollServer
open LinuxSystemPrograms.Sockets
open LinuxSystemPrograms.Transition

set_option autoImplicit false

abbrev Condition := List Event → EpollServer.Client → Events → Answers → Prop

/-- The steps that meet a condition, whichever client the next event is for. -/
def Allows (condition : Condition) (world : World) : Label → Prop
  | .wait _ => True
  | .handle answers =>
      ∀ event ∈ world.server.evs.head?, ∀ client ∈ world.server.heap event.ptr,
        ∀ id ∈ (world.kernel.file client.clientFd).connId,
          condition (world.kernel.log id) client event.events answers

instance (condition : Condition)
    [∀ log client revents answers, Decidable (condition log client revents answers)]
    (world : World) : (label : Label) → Decidable (Allows condition world label)
  | .wait _ => isTrue trivial
  | .handle _ => inferInstanceAs (Decidable (∀ event ∈ world.server.evs.head?, _))

structure Law (variant : Variant) (condition : Condition) where
  Open : List Event → EpollServer.Client → EpollEvent → Prop
  Shut : List Event → Prop
  fresh : ∀ fd ptr, Open [] (initClient fd) ⟨.read, ptr⟩
  refused : Shut [.close]
  read : ∀ {log client entry after revents answers},
    Open log client entry → condition log client revents answers →
    (readStage variant entry.ptr revents answers client (some entry)).entry = some after →
    Open (log ++ (readStage variant entry.ptr revents answers client (some entry)).events)
      (readStage variant entry.ptr revents answers client (some entry)).client after
  keep : ∀ {log client entry after earlier before} (revents : Events) (answers : Answers),
    Open log client entry → condition earlier before revents answers →
    ¬ Closing (writeStage entry.ptr revents answers client (some entry)) →
    (writeStage entry.ptr revents answers client (some entry)).entry = some after →
    Open (log ++ (writeStage entry.ptr revents answers client (some entry)).events)
      (writeStage entry.ptr revents answers client (some entry)).client after
  drop : ∀ {log client entry} (revents : Events) (answers : Answers),
    Open log client entry →
    Closing (writeStage entry.ptr revents answers client (some entry)) →
    Shut (log ++ (writeStage entry.ptr revents answers client (some entry)).events ++ [.close])

variable {variant : Variant} {condition : Condition}

structure Table (law : Law variant condition) (server : Server) (kernel : Kernel Return) :
    Prop where
  formed : kernel.WellFormed
  listener : kernel.file server.serverFd = .listener
  client : ∀ ptr client, server.heap ptr = some client →
    ptr ≠ 0 ∧ ∃ id entry, kernel.file client.clientFd = .conn id ∧
      server.interest client.clientFd = some entry ∧ entry.ptr = ptr ∧
      law.Open (kernel.log id) client entry
  registered : ∀ fd entry, server.interest fd = some entry →
    (fd = server.serverFd ∧ entry = ⟨.listen, 0⟩) ∨
      ∃ client, server.heap entry.ptr = some client ∧ client.clientFd = fd
  owned : ∀ fd id, kernel.file fd = .conn id →
    ∃ ptr client, server.heap ptr = some client ∧ client.clientFd = fd
  shut : ∀ id, ConnEvent.close ∈ kernel.log id → law.Shut (kernel.log id)

structure Batch (heap : Ptr → Option EpollServer.Client) (evs : List EpollEvent) : Prop where
  nodup : (evs.map EpollEvent.ptr).Nodup
  live : ∀ event ∈ evs, (event.ptr = 0 ∧ event.events.epollout = false) ∨
    ∃ client, heap event.ptr = some client

theorem ctl_mod_some (entry event : EpollEvent) (succeeds : Bool) :
    ∃ after, ctlMod (some entry) event succeeds = some after ∧
      (after = entry ∨ after = event) := by
  cases succeeds with
  | false => exact ⟨entry, rfl, Or.inl rfl⟩
  | true => exact ⟨event, rfl, Or.inr rfl⟩

/-- A handler leaves its client registered under the same address. -/
theorem read_stage_entry (variant : Variant) (revents : Events) (answers : Answers)
    (client : EpollServer.Client) (entry : EpollEvent) :
    ∃ after, (readStage variant entry.ptr revents answers client (some entry)).entry =
      some after ∧ after.ptr = entry.ptr := by
  unfold readStage handleRecv
  split_ifs with readable
  · dsimp only
    split_ifs with armed
    · obtain ⟨after, result, same⟩ := ctl_mod_some entry ⟨.readWrite, entry.ptr⟩
        answers.ctlModRecv
      exact ⟨after, result, by rcases same with rfl | rfl <;> rfl⟩
    · exact ⟨entry, rfl, rfl⟩
  · exact ⟨entry, rfl, rfl⟩

theorem write_stage_entry (revents : Events) (answers : Answers)
    (client : EpollServer.Client) (entry : EpollEvent) :
    ∃ after, (writeStage entry.ptr revents answers client (some entry)).entry = some after ∧
      after.ptr = entry.ptr := by
  unfold writeStage handleSend
  split_ifs with writable
  · dsimp only
    split_ifs with flushed
    · obtain ⟨after, result, same⟩ := ctl_mod_some entry ⟨.read, entry.ptr⟩ answers.ctlModSend
      exact ⟨after, result, by rcases same with rfl | rfl <;> rfl⟩
    · exact ⟨entry, rfl, rfl⟩
  · exact ⟨entry, rfl, rfl⟩

theorem read_stage_fd (variant : Variant) (ptr : Ptr) (revents : Events) (answers : Answers)
    (client : EpollServer.Client) (entry : Option EpollEvent) :
    (readStage variant ptr revents answers client entry).client.clientFd = client.clientFd := by
  cases readable : revents.epollin with
  | true => exact (read_stage_spec variant ptr answers client entry readable).fd
  | false => rw [read_stage_idle variant ptr answers client entry readable]

theorem write_stage_fd (ptr : Ptr) (revents : Events) (answers : Answers)
    (client : EpollServer.Client) (entry : Option EpollEvent) :
    (writeStage ptr revents answers client entry).client.clientFd = client.clientFd := by
  cases writable : revents.epollout with
  | true => exact (write_stage_spec ptr answers client entry writable).fd
  | false => rw [write_stage_idle ptr answers client entry writable]

theorem read_stage_no_close (variant : Variant) (ptr : Ptr) (revents : Events)
    (answers : Answers) (client : EpollServer.Client) (entry : Option EpollEvent) :
    ConnEvent.close ∉ (readStage variant ptr revents answers client entry).events := by
  cases readable : revents.epollin with
  | true =>
      rw [(read_stage_spec variant ptr answers client entry readable).events]
      simp [recvEvents]
  | false =>
      rw [read_stage_idle variant ptr answers client entry readable]
      exact List.not_mem_nil

theorem write_stage_no_close (ptr : Ptr) (revents : Events)
    (answers : Answers) (client : EpollServer.Client) (entry : Option EpollEvent) :
    ConnEvent.close ∉ (writeStage ptr revents answers client entry).events := by
  cases writable : revents.epollout with
  | true =>
      rw [(write_stage_spec ptr answers client entry writable).events]
      exact send_events_no_close _ _ _
  | false =>
      rw [write_stage_idle ptr answers client entry writable]
      exact List.not_mem_nil

theorem serve_event_no_close (variant : Variant) (event : EpollEvent)
    (answers : Answers) (client : EpollServer.Client) (entry : Option EpollEvent) :
    ConnEvent.close ∉ (serveEvent variant event answers client entry).events := by
  simp only [serveEvent, List.mem_append, not_or]
  exact ⟨read_stage_no_close _ _ _ _ _ _, write_stage_no_close _ _ _ _ _⟩

namespace Table

variable {law : Law variant condition} {server : Server} {kernel : Kernel Return}

/-- Two allocated clients never share a descriptor. -/
theorem ptr_unique (table : Table law server kernel) {ptr other : Ptr}
    {client otherClient : EpollServer.Client} (live : server.heap ptr = some client)
    (otherLive : server.heap other = some otherClient)
    (sameFd : otherClient.clientFd = client.clientFd) : other = ptr := by
  obtain ⟨_, _, entry, _, registered, own, _⟩ := table.client ptr client live
  obtain ⟨_, _, otherEntry, _, otherRegistered, otherOwn, _⟩ :=
    table.client other otherClient otherLive
  rw [sameFd, registered, Option.some.injEq] at otherRegistered
  rw [← own, ← otherOwn, otherRegistered]

theorem entry_unique (table : Table law server kernel) {fd other : Fd}
    {entry otherEntry : EpollEvent} (otherRegistered : server.interest other = some otherEntry)
    (registered : server.interest fd = some entry) (samePtr : otherEntry.ptr = entry.ptr) :
    other = fd := by
  rcases table.registered other otherEntry otherRegistered with
    ⟨otherListener, rfl⟩ | ⟨otherClient, otherLive, otherFd⟩
  · rcases table.registered fd entry registered with ⟨listener, _⟩ | ⟨client, live, _⟩
    · rw [otherListener, listener]
    · exact absurd samePtr.symm (table.client entry.ptr client live).1
  · rcases table.registered fd entry registered with ⟨_, rfl⟩ | ⟨client, live, clientFd⟩
    · exact absurd samePtr (table.client otherEntry.ptr otherClient otherLive).1
    · rw [samePtr, live, Option.some.injEq] at otherLive
      rw [← otherFd, ← clientFd, otherLive]

theorem fd_ne (table : Table law server kernel) {ptr other : Ptr}
    {client otherClient : EpollServer.Client} (live : server.heap ptr = some client)
    (otherLive : server.heap other = some otherClient) (different : other ≠ ptr) :
    otherClient.clientFd ≠ client.clientFd :=
  fun sameFd => different (table.ptr_unique live otherLive sameFd)

/-- Another client's connection has another log. -/
theorem id_ne (table : Table law server kernel) {fd other : Fd} {id otherId : Nat}
    (owner : kernel.file fd = .conn id) (otherOwner : kernel.file other = .conn otherId)
    (different : other ≠ fd) : otherId ≠ id := by
  intro same
  rw [same] at otherOwner
  exact different (table.formed.single other fd id otherOwner owner)

theorem server_fd_ne (table : Table law server kernel) {fd : Fd} {id : Nat}
    (owner : kernel.file fd = .conn id) : server.serverFd ≠ fd := by
  intro same
  have listener := table.listener
  rw [same, owner] at listener
  cases listener

theorem not_shut (table : Table law server kernel) {fd : Fd} {id : Nat}
    (owner : kernel.file fd = .conn id) : ConnEvent.close ∉ kernel.log id := by
  intro closed
  have bound := (table.formed.owner fd id owner).2
  exact (table.formed.shut id bound).mp closed fd owner

/-- The loop body has run for a client that stays. -/
theorem keep_client (table : Table law server kernel) {ptr : Ptr}
    {client after : EpollServer.Client} {id : Nat} {entry : EpollEvent} {events : List Event}
    (live : server.heap ptr = some client) (owner : kernel.file client.clientFd = .conn id)
    (sameFd : after.clientFd = client.clientFd) (own : entry.ptr = ptr)
    (noClose : ConnEvent.close ∉ events)
    (kept : law.Open (kernel.log id ++ events) after entry) :
    Table law
      { server with
        heap := Function.update server.heap ptr (some after)
        interest := Function.update server.interest client.clientFd (some entry) }
      (kernel.record id events) where
  formed := Kernel.record_well_formed table.formed owner noClose
  listener := table.listener
  client other otherClient otherLive := by
    by_cases same : other = ptr
    · subst same
      simp only [Function.update_self, Option.some.injEq] at otherLive
      subst otherLive
      refine ⟨(table.client other client live).1, id, entry, ?_, ?_, own, ?_⟩
      · rw [Kernel.record_file, sameFd, owner]
      · rw [sameFd]
        exact Function.update_self _ _ _
      · rw [Kernel.record_log_same]
        exact kept
    · simp only [Function.update_of_ne same] at otherLive
      have otherFd := table.fd_ne live otherLive same
      obtain ⟨valid, otherId, otherEntry, otherOwner, registered, otherOwn, isOpen⟩ :=
        table.client other otherClient otherLive
      refine ⟨valid, otherId, otherEntry, otherOwner, ?_, otherOwn, ?_⟩
      · simp only [Function.update_of_ne otherFd, registered]
      · rw [Kernel.record_log_other _ _ (table.id_ne owner otherOwner otherFd)]
        exact isOpen
  registered fd found registered := by
    by_cases same : fd = client.clientFd
    · subst same
      simp only [Function.update_self, Option.some.injEq] at registered
      subst registered
      exact Or.inr ⟨after, by rw [own]; exact Function.update_self _ _ _, sameFd⟩
    · simp only [Function.update_of_ne same] at registered
      rcases table.registered fd found registered with listener | ⟨other, otherLive, otherFd⟩
      · exact Or.inl listener
      · have notPtr : found.ptr ≠ ptr := by
          intro samePtr
          rw [samePtr, live, Option.some.injEq] at otherLive
          exact same (by rw [← otherFd, otherLive])
        exact Or.inr ⟨other, by simp only [Function.update_of_ne notPtr, otherLive], otherFd⟩
  owned fd otherId otherOwner := by
    obtain ⟨other, otherClient, otherLive, otherFd⟩ := table.owned fd otherId otherOwner
    by_cases same : other = ptr
    · subst same
      rw [live, Option.some.injEq] at otherLive
      exact ⟨other, after, Function.update_self _ _ _, by rw [sameFd, otherLive, otherFd]⟩
    · exact ⟨other, otherClient, by simp only [Function.update_of_ne same, otherLive], otherFd⟩
  shut otherId closed := by
    by_cases same : otherId = id
    · subst same
      rw [Kernel.record_log_same, List.mem_append] at closed
      exact absurd closed (not_or.mpr ⟨table.not_shut owner, noClose⟩)
    · rw [Kernel.record_log_other _ _ same] at closed ⊢
      exact table.shut otherId closed

/-- The loop body has closed and freed a client. -/
theorem drop_client (table : Table law server kernel) {ptr : Ptr}
    {client : EpollServer.Client} {id : Nat} {events : List Event}
    (live : server.heap ptr = some client) (owner : kernel.file client.clientFd = .conn id)
    (shut : law.Shut (kernel.log id ++ events ++ [.close])) :
    Table law (destroy server ptr client.clientFd)
      ((kernel.record id (events ++ [.close])).release client.clientFd) where
  formed := Kernel.close_well_formed table.formed owner events
  listener := (Kernel.release_file_other _ (table.server_fd_ne owner)).trans table.listener
  client other otherClient otherLive := by
    have different : other ≠ ptr := by
      intro same
      simp only [destroy, same, Function.update_self] at otherLive
      cases otherLive
    simp only [destroy, Function.update_of_ne different] at otherLive
    have otherFd := table.fd_ne live otherLive different
    obtain ⟨valid, otherId, entry, otherOwner, registered, own, isOpen⟩ :=
      table.client other otherClient otherLive
    refine ⟨valid, otherId, entry, ?_, ?_, own, ?_⟩
    · rw [Kernel.release_file_other _ otherFd, Kernel.record_file, otherOwner]
    · simp only [destroy, Function.update_of_ne otherFd, registered]
    · rw [Kernel.release_log,
        Kernel.record_log_other _ _ (table.id_ne owner otherOwner otherFd)]
      exact isOpen
  registered fd entry registered := by
    have different : fd ≠ client.clientFd := by
      intro same
      simp only [destroy, same, Function.update_self] at registered
      cases registered
    simp only [destroy, Function.update_of_ne different] at registered
    rcases table.registered fd entry registered with listener | ⟨other, otherLive, otherFd⟩
    · exact Or.inl listener
    · have notPtr : entry.ptr ≠ ptr := by
        intro samePtr
        rw [samePtr, live, Option.some.injEq] at otherLive
        exact different (by rw [← otherFd, otherLive])
      exact Or.inr ⟨other, by simp only [destroy, Function.update_of_ne notPtr, otherLive], otherFd⟩
  owned fd otherId otherOwner := by
    have different : fd ≠ client.clientFd := by
      intro same
      rw [same, Kernel.release_file_same] at otherOwner
      cases otherOwner
    rw [Kernel.release_file_other _ different] at otherOwner
    obtain ⟨other, otherClient, otherLive, otherFd⟩ := table.owned fd otherId otherOwner
    have notPtr : other ≠ ptr := by
      intro samePtr
      rw [samePtr, live, Option.some.injEq] at otherLive
      exact different (by rw [← otherFd, otherLive])
    exact ⟨other, otherClient, by simp only [destroy, Function.update_of_ne notPtr, otherLive],
      otherFd⟩
  shut otherId closed := by
    rw [Kernel.release_log] at closed ⊢
    by_cases same : otherId = id
    · rw [same, Kernel.record_log_same, ← List.append_assoc]
      exact shut
    · rw [Kernel.record_log_other _ _ same] at closed ⊢
      exact table.shut otherId closed

/-- Every log is empty, or that of an open client, or that of a closed connection. -/
theorem every_log (table : Table law server kernel) {Holds : List Event → Prop}
    (ofNil : Holds []) (ofOpen : ∀ log client entry, law.Open log client entry → Holds log)
    (ofShut : ∀ log, law.Shut log → Holds log) (id : Nat) : Holds (kernel.log id) := by
  by_cases bound : id < kernel.accepted
  · by_cases closed : ConnEvent.close ∈ kernel.log id
    · exact ofShut _ (table.shut id closed)
    · rw [table.formed.shut id bound] at closed
      push Not at closed
      obtain ⟨fd, owner⟩ := closed
      obtain ⟨ptr, client, live, rfl⟩ := table.owned fd id owner
      obtain ⟨_, otherId, entry, otherOwner, _, _, isOpen⟩ := table.client ptr client live
      rw [owner, File.conn.injEq] at otherOwner
      rw [otherOwner]
      exact ofOpen _ client entry isOpen
  · rw [table.formed.fresh id (by omega)]
    exact ofNil

theorem unused_ne (table : Table law server kernel) {fd : Fd}
    (unused : kernel.file fd = .closed) {ptr : Ptr} {client : EpollServer.Client}
    (live : server.heap ptr = some client) : client.clientFd ≠ fd := by
  intro same
  obtain ⟨_, _, _, owner, _⟩ := table.client ptr client live
  rw [same, unused] at owner
  cases owner

/-- `accept`, `malloc` and `epoll_ctl` have all succeeded. -/
theorem open_client (table : Table law server kernel) {fd : Fd} {ptr : Ptr} (valid : 0 ≤ fd)
    (unused : kernel.file fd = .closed) (notNull : ptr ≠ 0) (free : server.heap ptr = none) :
    Table law
      { server with
        heap := Function.update server.heap ptr (some (initClient fd))
        interest := Function.update server.interest fd (some ⟨.read, ptr⟩) }
      (kernel.openConn fd) where
  formed := Kernel.open_well_formed table.formed valid unused
  listener := by
    have different : server.serverFd ≠ fd := by
      intro same
      have listener := table.listener
      rw [same, unused] at listener
      cases listener
    rw [Kernel.open_file_other _ different]
    exact table.listener
  client other otherClient otherLive := by
    by_cases same : other = ptr
    · subst same
      simp only [Function.update_self, Option.some.injEq] at otherLive
      subst otherLive
      refine ⟨notNull, kernel.accepted, ⟨.read, other⟩, Kernel.open_file_same kernel fd, ?_,
        rfl, ?_⟩
      · exact Function.update_self _ _ _
      · rw [Kernel.open_log, table.formed.fresh _ (Nat.le_refl _)]
        exact law.fresh fd other
    · simp only [Function.update_of_ne same] at otherLive
      have otherFd := table.unused_ne unused otherLive
      obtain ⟨otherValid, otherId, entry, otherOwner, registered, own, isOpen⟩ :=
        table.client other otherClient otherLive
      refine ⟨otherValid, otherId, entry, ?_, ?_, own, isOpen⟩
      · rw [Kernel.open_file_other _ otherFd, otherOwner]
      · simp only [Function.update_of_ne otherFd, registered]
  registered other entry registered := by
    by_cases same : other = fd
    · subst same
      simp only [Function.update_self, Option.some.injEq] at registered
      subst registered
      exact Or.inr ⟨initClient other, Function.update_self _ _ _, rfl⟩
    · simp only [Function.update_of_ne same] at registered
      rcases table.registered other entry registered with listener | ⟨client, live, clientFd⟩
      · exact Or.inl listener
      · have notPtr : entry.ptr ≠ ptr := by
          intro samePtr
          rw [samePtr, free] at live
          cases live
        exact Or.inr ⟨client, by simp only [Function.update_of_ne notPtr, live], clientFd⟩
  owned other id owner := by
    by_cases same : other = fd
    · exact ⟨ptr, initClient fd, Function.update_self _ _ _, same.symm⟩
    · rw [Kernel.open_file_other _ same] at owner
      obtain ⟨otherPtr, client, live, clientFd⟩ := table.owned other id owner
      have notPtr : otherPtr ≠ ptr := by
        intro samePtr
        rw [samePtr, free] at live
        cases live
      exact ⟨otherPtr, client, by simp only [Function.update_of_ne notPtr, live], clientFd⟩
  shut := table.shut

/-- A connection that is closed before it gets a client. -/
theorem refuse (table : Table law server kernel) {fd : Fd} (valid : 0 ≤ fd)
    (unused : kernel.file fd = .closed) :
    Table law server (kernel.exec [.accept fd, .io fd .close]) where
  formed := Kernel.refuse_well_formed table.formed valid unused
  listener := by
    rw [Kernel.refuse_file unused]
    exact table.listener
  client ptr client live := by
    obtain ⟨notNull, id, entry, owner, registered, own, isOpen⟩ := table.client ptr client live
    refine ⟨notNull, id, entry, by rw [Kernel.refuse_file unused, owner], registered, own, ?_⟩
    have old := Nat.ne_of_lt (table.formed.owner _ _ owner).2
    rw [Kernel.refuse_log_other _ _ old]
    exact isOpen
  registered := table.registered
  owned other id owner := by
    rw [Kernel.refuse_file unused] at owner
    exact table.owned other id owner
  shut id closed := by
    by_cases newest : id = kernel.accepted
    · rw [newest, Kernel.refuse_log_new table.formed]
      exact law.refused
    · rw [Kernel.refuse_log_other _ _ newest] at closed ⊢
      exact table.shut id closed

/-- The counter and the batch take no part in the table. -/
theorem recount (table : Table law server kernel) (conns : Int) (evs : List EpollEvent) :
    Table law { server with conns := conns, evs := evs } kernel where
  formed := table.formed
  listener := table.listener
  client := table.client
  registered := table.registered
  owned := table.owned
  shut := table.shut

end Table

theorem batch_nil (heap : Ptr → Option EpollServer.Client) : Batch heap [] where
  nodup := List.nodup_nil
  live _ member := absurd member List.not_mem_nil

/-- A new batch has at most one event for each registered address. -/
theorem batch_wait {law : Law variant condition} {server : Server} {kernel : Kernel Return}
    (table : Table law server kernel) {report : List (Fd × Events)}
    (distinct : (report.map Prod.fst).Nodup)
    (asked : ∀ ready ∈ report, ∃ entry ∈ server.interest ready.1,
      entry.events.Reports ready.2) :
    Batch server.heap (EpollServer.batch server.interest report) where
  nodup := by
    induction report with
    | nil => exact List.nodup_nil
    | cons ready rest ih =>
        rw [List.map_cons, List.nodup_cons] at distinct
        obtain ⟨entry, registered, _⟩ := asked ready List.mem_cons_self
        rw [Option.mem_def] at registered
        have later := ih distinct.2 fun other member => asked other (List.mem_cons_of_mem _ member)
        simp only [EpollServer.batch, List.filterMap_cons, registered, Option.map_some,
          List.map_cons, List.nodup_cons]
        refine ⟨?_, later⟩
        intro member
        obtain ⟨found, inRest, samePtr⟩ := List.mem_map.mp member
        obtain ⟨other, otherMember, otherMap⟩ := List.mem_filterMap.mp inRest
        rw [Option.map_eq_some_iff] at otherMap
        obtain ⟨otherEntry, otherRegistered, rfl⟩ := otherMap
        have sameFd : other.1 = ready.1 :=
          table.entry_unique otherRegistered registered samePtr
        exact distinct.1 (List.mem_map.mpr ⟨other, otherMember, sameFd⟩)
  live event member := by
    obtain ⟨ready, readyMember, readyMap⟩ := List.mem_filterMap.mp member
    rw [Option.map_eq_some_iff] at readyMap
    obtain ⟨entry, registered, rfl⟩ := readyMap
    rcases table.registered ready.1 entry registered with ⟨_, rfl⟩ | ⟨client, live, _⟩
    · obtain ⟨found, foundRegistered, reports⟩ := asked ready readyMember
      rw [Option.mem_def, registered, Option.some.injEq] at foundRegistered
      subst foundRegistered
      refine Or.inl ⟨rfl, ?_⟩
      cases shown : ready.2.epollout with
      | false => rfl
      | true => exact absurd (reports.2.1 shown) (by decide)
    · exact Or.inr ⟨client, live⟩

/-- The tail of a batch is a batch for every heap that keeps the other addresses. -/
theorem batch_tail {heap after : Ptr → Option EpollServer.Client} {event : EpollEvent}
    {rest : List EpollEvent} (batch : Batch heap (event :: rest))
    (kept : ∀ ptr, ptr ≠ event.ptr → (∃ client, heap ptr = some client) →
      ∃ client, after ptr = some client) : Batch after rest where
  nodup := (List.nodup_cons.mp batch.nodup).2
  live other member := by
    have different : other.ptr ≠ event.ptr := by
      intro same
      exact (List.nodup_cons.mp batch.nodup).1 (List.mem_map.mpr ⟨other, member, same⟩)
    rcases batch.live other (List.mem_cons_of_mem _ member) with null | live
    · exact Or.inl null
    · exact Or.inr (kept other.ptr different live)

theorem update_keeps_live {heap : Ptr → Option EpollServer.Client} {ptr other : Ptr}
    {after : Option EpollServer.Client} (different : other ≠ ptr)
    (live : ∃ client, heap other = some client) :
    ∃ client, Function.update heap ptr after other = some client := by
  rw [Function.update_of_ne different]
  exact live

structure Serving (law : Law variant condition) (world : World) : Prop where
  table : Table law world.server world.kernel
  batch : Batch world.server.heap world.server.evs

theorem boot_serving (law : Law variant condition) (serverFd : Fd) (added : Bool) :
    Serving law (boot serverFd added) where
  table :=
    { formed := Kernel.boot_well_formed serverFd
      listener := by simp [boot, Kernel.boot]
      client := fun ptr client live => by cases live
      registered := fun fd entry registered => by
        by_cases same : fd = serverFd
        · subst same
          simp only [boot, Function.update_self] at registered
          split_ifs at registered
          exact Or.inl ⟨rfl, (Option.some.inj registered).symm⟩
        · simp [boot, Function.update_of_ne same] at registered
      owned := fun fd id owner => by
        by_cases same : fd = serverFd <;> simp [boot, Kernel.boot, same] at owner
      shut := fun id closed => absurd closed List.not_mem_nil }
  batch := batch_nil _

/-- Both branches of the loop body, for a client whose law holds. -/
theorem serve_event_keeps (law : Law variant condition) {log : List Event}
    {client : EpollServer.Client} {entry : EpollEvent} {event : EpollEvent} {answers : Answers}
    (own : entry.ptr = event.ptr) (isOpen : law.Open log client entry)
    (allowed : condition log client event.events answers) :
    (¬ Closing (serveEvent variant event answers client (some entry)) →
      ∃ after, (serveEvent variant event answers client (some entry)).entry = some after ∧
        after.ptr = event.ptr ∧
        law.Open (log ++ (serveEvent variant event answers client (some entry)).events)
          (serveEvent variant event answers client (some entry)).client after) ∧
    (Closing (serveEvent variant event answers client (some entry)) →
      law.Shut (log ++ (serveEvent variant event answers client (some entry)).events ++
        [.close])) := by
  obtain ⟨middle, readEntry, middlePtr⟩ := read_stage_entry variant event.events answers client entry
  have opened := law.read isOpen allowed readEntry
  obtain ⟨after, writtenEntry, afterPtr⟩ := write_stage_entry event.events answers
    (readStage variant entry.ptr event.events answers client (some entry)).client middle
  unfold serveEvent Closing
  simp only [← own, readEntry, ← List.append_assoc]
  rw [middlePtr] at writtenEntry
  constructor
  · intro stays
    refine ⟨after, writtenEntry, by rw [afterPtr, middlePtr], ?_⟩
    have kept := @law.keep _ _ _ after _ _ event.events answers opened allowed
    rw [middlePtr] at kept
    exact kept stays writtenEntry
  · intro closing
    have dropped := law.drop event.events answers opened
    rw [middlePtr] at dropped
    exact dropped closing

/-- One pass of the `for` loop keeps a law whose condition it meets. -/
theorem handle_keeps (law : Law variant condition) {world after : World} {answers : Answers}
    (serving : Serving law world) (honest : Honest variant world (.handle answers))
    (allowed : Allows condition world (.handle answers))
    (advanced : advance variant world (.handle answers) = some after) :
    Serving law after := by
  cases evs : world.server.evs with
  | nil => simp [advance, evs] at advanced
  | cons event rest =>
      simp only [advance, evs, Option.map_eq_some_iff] at advanced
      obtain ⟨done, dispatched, rfl⟩ := advanced
      have table := serving.table
      have batch := serving.batch
      rw [evs] at batch
      rcases dispatch_cases dispatched with
        rfl | ⟨fd, accepted, rfl⟩ | ⟨fd, ptr, accepted, allocated, _, rfl⟩ |
          ⟨client, served, live, servedEq, outcome⟩
      · exact ⟨table.recount _ _, batch_tail batch fun ptr _ found => found⟩
      · obtain ⟨valid, unused⟩ := honest.1 fd (by simp [accepted, Except.toOption])
        exact ⟨(table.refuse valid unused).recount _ _, batch_tail batch fun ptr _ found => found⟩
      · obtain ⟨valid, unused⟩ := honest.1 fd (by simp [accepted, Except.toOption])
        obtain ⟨notNull, free⟩ := honest.2 ptr allocated
        refine ⟨(table.open_client valid unused notNull free).recount _ _,
          batch_tail batch fun other _ found => ?_⟩
        refine update_keeps_live ?_ found
        rintro rfl
        simp [free] at found
      · obtain ⟨_, id, entry, owner, registered, own, isOpen⟩ :=
          table.client event.ptr client live
        have meets : condition (world.kernel.log id) client event.events answers :=
          allowed event (by simp [evs]) client live id (by simp [owner, File.connId])
        obtain ⟨stays, leaves⟩ := serve_event_keeps law own isOpen meets
        rw [registered] at servedEq
        subst servedEq
        have noClose := serve_event_no_close variant event answers client (some entry)
        rcases outcome with ⟨staying, rfl⟩ | ⟨closing, rfl⟩
        · obtain ⟨newEntry, entryEq, newOwn, kept⟩ := stays staying
          have sameFd : (serveEvent variant event answers client (some entry)).client.clientFd =
              client.clientFd := by
            simp only [serveEvent, write_stage_fd, read_stage_fd]
          simp only [entryEq, Kernel.exec_io_open owner _ noClose]
          exact ⟨(table.keep_client live owner sameFd newOwn noClose kept).recount _ _,
            batch_tail batch fun _ different found =>
              update_keeps_live different found⟩
        · simp only [Kernel.exec_io_close owner _ noClose]
          have dropped := table.drop_client live owner (leaves closing)
          split_ifs
          · exact ⟨dropped.recount _ _, batch_tail batch fun _ different found =>
              update_keeps_live different found⟩
          · exact ⟨dropped.recount _ _, batch_tail batch fun _ different found =>
              update_keeps_live different found⟩

theorem wait_keeps (law : Law variant condition) {world after : World}
    {report : List (Fd × Events)} (serving : Serving law world)
    (honest : Honest variant world (.wait report))
    (advanced : advance variant world (.wait report) = some after) : Serving law after := by
  cases evs : world.server.evs with
  | cons event rest => simp [advance, evs] at advanced
  | nil =>
      simp only [advance, evs, Option.some.injEq] at advanced
      subst advanced
      exact ⟨serving.table.recount _ _, batch_wait serving.table honest.2.1 honest.2.2⟩

theorem step_keeps (law : Law variant condition) {world after : World} {label : Label}
    (serving : Serving law world) (allowed : Allows condition world label)
    (taken : (system variant).step world label after) : Serving law after := by
  cases label with
  | wait report => exact wait_keeps law serving taken.1 taken.2
  | handle answers => exact handle_keeps law serving taken.1 allowed taken.2

/-- In every run whose steps meet the condition, every open client obeys the law. -/
theorem reachable_serving (law : Law variant condition) {world : World}
    (reached : Reachable (guarded (system variant) (Allows condition)) world) :
    Serving law world := by
  apply reachable_invariant _ _ reached
  · rintro _ ⟨serverFd, added, _, rfl⟩
    exact boot_serving law serverFd added
  · intro state label after _ serving taken
    exact step_keeps law serving taken.1 taken.2

def anyEvent : Condition := fun _ _ _ _ => True

theorem allows_any_event (world : World) (label : Label) : Allows anyEvent world label := by
  cases label with
  | wait report => trivial
  | handle answers => exact fun _ _ _ _ _ _ => trivial

/-- A law without a condition holds in every run. -/
theorem reachable_serving_any (law : Law variant anyEvent) {world : World}
    (reached : Reachable (system variant) world) : Serving law world :=
  reachable_serving law
    (reachable_guarded_of_allowed (fun state label _ _ _ => allows_any_event state label) reached)

/-- No step of the loop body goes through a pointer to memory that is not allocated. -/
theorem dispatch_defined {law : Law variant condition} {world : World}
    (serving : Serving law world) {event : EpollEvent} {rest : List EpollEvent}
    (evs : world.server.evs = event :: rest) (answers : Answers) :
    (dispatch variant answers event world.server).isSome = true := by
  unfold dispatch
  rcases serving.batch.live event (by simp [evs]) with ⟨null, notOut⟩ | ⟨client, live⟩
  · cases readable : event.events.epollin <;> simp [null, notOut]
  · split_ifs <;> simp [live]

end LinuxSystemPrograms.EpollServerTable
