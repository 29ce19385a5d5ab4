import LinuxSystemPrograms.SelectServerV2

/-!
# Stream fidelity of the select server

`Serving` relates the slot table to the kernel between any two slots of the scan: every
open connection sits in exactly one slot, whose record balances with the connection's
log, and every free slot is empty whatever its arrays still hold. The two ways a slot is
written, `keep_slot` and `drop_slot`, are the only places where the invariant is
re-established; the stages of the loop body reduce to them.
-/

namespace LinuxSystemPrograms.SelectServerV2Fidelity

open LinuxSystemPrograms.ConnectionAccount
open LinuxSystemPrograms.EchoClient
open LinuxSystemPrograms.SelectServerV2
open LinuxSystemPrograms.Sockets
open LinuxSystemPrograms.Transition

set_option autoImplicit false

/-- The account of an open connection whose handlers have all succeeded. -/
def Settled (log : List Event) (echo : LineEcho) : Prop :=
  Accounted log echo ∧ newline ∉ echo.part

def SlotOk (kernel : Kernel Return) (client : Client) : Prop :=
  (client.clientFd = -1 ∧ client.view = LineEcho.empty) ∨
    ∃ id, kernel.file client.clientFd = .conn id ∧ Settled (kernel.log id) client.view

structure Serving (client : Slot → Client) (kernel : Kernel Return) : Prop where
  formed : kernel.WellFormed
  slot : ∀ slot, SlotOk kernel (client slot)
  distinct : ∀ slot other, (client slot).clientFd ≠ -1 →
    (client slot).clientFd = (client other).clientFd → slot = other
  owned : ∀ fd id, kernel.file fd = .conn id → ∃ slot, (client slot).clientFd = fd
  prefixes : ∀ id, EchoesPrefix (kernel.log id)

theorem boot_serving (serverFd : Fd) :
    Serving (boot serverFd).client (Kernel.boot serverFd) where
  formed := Kernel.boot_well_formed serverFd
  slot _ := Or.inl ⟨rfl, Client.init_view⟩
  distinct slot other busy := absurd rfl busy
  owned fd id owner := by
    by_cases same : fd = serverFd <;> simp [Kernel.boot, same] at owner
  prefixes _ := echoes_prefix_nil

theorem slot_owner {client : Slot → Client} {kernel : Kernel Return}
    (serving : Serving client kernel) {slot : Slot} (busy : (client slot).clientFd ≠ -1) :
    ∃ id, kernel.file (client slot).clientFd = .conn id ∧
      Settled (kernel.log id) (client slot).view := by
  rcases serving.slot slot with ⟨free, _⟩ | owner
  · exact absurd free busy
  · exact owner

/-- A busy slot other than the one that owns `id` owns another connection. -/
theorem other_owner {client : Slot → Client} {kernel : Kernel Return}
    (serving : Serving client kernel) {slot other : Slot} {id otherId : Nat}
    (busy : (client slot).clientFd ≠ -1)
    (owner : kernel.file (client slot).clientFd = .conn id) (different : other ≠ slot)
    (otherOwner : kernel.file (client other).clientFd = .conn otherId) :
    otherId ≠ id ∧ (client other).clientFd ≠ (client slot).clientFd := by
  have fds : (client other).clientFd ≠ (client slot).clientFd := by
    intro same
    exact different (serving.distinct slot other busy same.symm).symm
  refine ⟨?_, fds⟩
  rintro rfl
  exact fds (serving.formed.single _ _ _ otherOwner owner)

/-- A handler that leaves the connection open rewrites its slot and its log. -/
theorem keep_slot {client : Slot → Client} {kernel : Kernel Return}
    (serving : Serving client kernel) {slot : Slot} {id : Nat}
    (busy : (client slot).clientFd ≠ -1)
    (owner : kernel.file (client slot).clientFd = .conn id)
    {after : Client} (sameFd : after.clientFd = (client slot).clientFd)
    {events : List Event} (noClose : ConnEvent.close ∉ events)
    (settled : Settled (kernel.log id ++ events) after.view)
    (prefixes : EchoesPrefix (kernel.log id ++ events)) :
    Serving (Function.update client slot after) (kernel.record id events) where
  formed := Kernel.record_well_formed serving.formed owner noClose
  slot other := by
    by_cases same : other = slot
    · subst same
      rw [Function.update_self]
      exact Or.inr ⟨id, by rw [sameFd]; exact owner, by rw [Kernel.record_log_same]; exact settled⟩
    · rw [Function.update_of_ne same]
      rcases serving.slot other with free | ⟨otherId, otherOwner, otherSettled⟩
      · exact Or.inl free
      · have different := (other_owner serving busy owner same otherOwner).1
        exact Or.inr ⟨otherId, otherOwner, by
          rw [Kernel.record_log_other _ _ different]; exact otherSettled⟩
  distinct left right := by
    rw [update_client_fd sameFd left, update_client_fd sameFd right]
    exact serving.distinct left right
  owned fd otherId otherOwner := by
    obtain ⟨index, indexFd⟩ := serving.owned fd otherId otherOwner
    refine ⟨index, ?_⟩
    by_cases same : index = slot
    · rw [same, Function.update_self, sameFd, ← same, indexFd]
    · rw [Function.update_of_ne same, indexFd]
  prefixes otherId := by
    by_cases same : otherId = id
    · rw [same, Kernel.record_log_same]
      exact prefixes
    · rw [Kernel.record_log_other _ _ same]
      exact serving.prefixes otherId

/-- Closing frees the slot; what its arrays still hold belongs to nobody. -/
theorem drop_slot {client : Slot → Client} {kernel : Kernel Return}
    (serving : Serving client kernel) {slot : Slot} {id : Nat}
    (busy : (client slot).clientFd ≠ -1)
    (owner : kernel.file (client slot).clientFd = .conn id) (after : Client)
    {events : List Event} (prefixes : EchoesPrefix (kernel.log id ++ events)) :
    Serving (Function.update client slot after.reset)
      ((kernel.record id (events ++ [.close])).release (client slot).clientFd) where
  formed := Kernel.close_well_formed serving.formed owner events
  slot other := by
    by_cases same : other = slot
    · subst same
      rw [Function.update_self]
      exact Or.inl ⟨rfl, Client.reset_view after⟩
    · rw [Function.update_of_ne same]
      rcases serving.slot other with free | ⟨otherId, otherOwner, otherSettled⟩
      · exact Or.inl free
      · obtain ⟨differentId, differentFd⟩ := other_owner serving busy owner same otherOwner
        refine Or.inr ⟨otherId, ?_, ?_⟩
        · rw [Kernel.release_file_other _ differentFd]
          exact otherOwner
        · rw [Kernel.release_log, Kernel.record_log_other _ _ differentId]
          exact otherSettled
  distinct left right leftBusy sameFds := by
    by_cases leftSame : left = slot
    · rw [leftSame, Function.update_self] at leftBusy
      exact absurd rfl leftBusy
    · rw [Function.update_of_ne leftSame] at leftBusy sameFds
      by_cases rightSame : right = slot
      · rw [rightSame, Function.update_self] at sameFds
        exact absurd sameFds leftBusy
      · rw [Function.update_of_ne rightSame] at sameFds
        exact serving.distinct left right leftBusy sameFds
  owned fd otherId otherOwner := by
    have notClosed : fd ≠ (client slot).clientFd := by
      rintro rfl
      rw [Kernel.release_file_same] at otherOwner
      cases otherOwner
    rw [Kernel.release_file_other _ notClosed] at otherOwner
    obtain ⟨index, indexFd⟩ := serving.owned fd otherId otherOwner
    refine ⟨index, ?_⟩
    have notSlot : index ≠ slot := by
      rintro rfl
      exact notClosed indexFd.symm
    rw [Function.update_of_ne notSlot, indexFd]
  prefixes otherId := by
    rw [Kernel.release_log]
    by_cases same : otherId = id
    · rw [same, Kernel.record_log_same, ← List.append_assoc]
      exact echoes_prefix_close prefixes
    · rw [Kernel.record_log_other _ _ same]
      exact serving.prefixes otherId

/-- `handle_recv` returns 0 only when every complete line went to `send_buf`. -/
theorem settled_receive {log : List Event} {echo : LineEcho} (settled : Settled log echo)
    (result : RecvResult) (success : recvCode (echo.receive result).2 ≠ -1) :
    Settled (log ++ recvEvents recvCode echo result) (echo.receive result).1 := by
  have kept : (echo.receive result).2 ≠ .messageTooLong := by
    intro tooLong
    exact success (by rw [tooLong]; rfl)
  refine ⟨accounted_receive settled.1 recvCode result kept, ?_⟩
  rcases receive_cases echo result with ⟨_, _, after, exit⟩ | ⟨_, _, _, exit⟩ | ⟨_, after, _⟩
  · rw [after]
    intro left
    rw [exit, LineEcho.takeInExit, if_pos left] at success
    exact success rfl
  · exact absurd exit kept
  · rw [after]
    exact settled.2

theorem settled_flush {log : List Event} {echo : LineEcho} (settled : Settled log echo)
    (result : SendResult) :
    Settled (log ++ sendEvents sendCode echo result) (echo.flush result).1 := by
  refine ⟨accounted_flush settled.1 sendCode result, ?_⟩
  rw [(sent_send_events sendCode echo result).2]
  exact settled.2

theorem read_stage_keeps {server : Server} {kernel : Kernel Return} (round : Round)
    {slot : Slot} (serving : Serving server.client kernel)
    (busy : (server.client slot).clientFd ≠ -1) :
    Serving (readStage round server slot).1.client
        (kernel.exec (readStage round server slot).2.1) ∧
      ((readStage round server slot).2.2 = true →
        ((readStage round server slot).1.client slot).clientFd ≠ -1) := by
  obtain ⟨id, owner, settled⟩ := slot_owner serving busy
  cases ready : server.readfds (server.client slot).clientFd with
  | false =>
      rw [read_stage_idle round ready]
      exact ⟨serving, fun _ => busy⟩
  | true =>
      let result := recv recvBufSize (round.recv (server.client slot).clientFd)
      obtain ⟨viewEq, _, fdEq⟩ := Client.receive_view (server.client slot)
        (round.recv (server.client slot).clientFd)
      have noClose := recv_events_no_close recvCode (server.client slot).view result
      have prefixes := echoes_prefix_receive (serving.prefixes id) recvCode
        (server.client slot).view result
      by_cases failed : recvCode ((server.client slot).view.receive result).2 = -1
      · rw [read_stage_failed ready rfl failed, Kernel.exec_io_close owner _ noClose]
        exact ⟨drop_slot serving busy owner _ prefixes, fun goOn => Bool.noConfusion goOn⟩
      · rw [read_stage_kept ready rfl failed, Kernel.exec_io_open owner _ noClose]
        constructor
        · apply keep_slot serving busy owner fdEq noClose _ prefixes
          rw [viewEq]
          exact settled_receive settled result failed
        · intro _
          simpa only [Function.update_self, fdEq] using busy

theorem write_stage_keeps {server : Server} {kernel : Kernel Return} (round : Round)
    {slot : Slot} (serving : Serving server.client kernel)
    (busy : (server.client slot).clientFd ≠ -1) :
    Serving (writeStage round server slot).1.client
      (kernel.exec (writeStage round server slot).2) := by
  obtain ⟨id, owner, settled⟩ := slot_owner serving busy
  cases ready : server.writefds (server.client slot).clientFd with
  | false =>
      rw [write_stage_idle round ready]
      exact serving
  | true =>
      let result := send (server.client slot).queued.length
        (round.send (server.client slot).clientFd)
      obtain ⟨viewEq, _, fdEq⟩ := Client.flush_view (server.client slot)
        (round.send (server.client slot).clientFd)
      have noClose := send_events_no_close sendCode (server.client slot).view result
      have prefixes := echoes_prefix_flush (serving.prefixes id) settled.1.within sendCode result
      by_cases failed : sendCode ((server.client slot).view.flush result).2 = -1
      · rw [write_stage_failed ready rfl failed, Kernel.exec_io_close owner _ noClose]
        exact drop_slot serving busy owner _ prefixes
      · rw [write_stage_kept ready rfl failed, Kernel.exec_io_open owner _ noClose]
        apply keep_slot serving busy owner fdEq noClose _ prefixes
        rw [viewEq]
        exact settled_flush settled result

theorem serve_slot_keeps {server : Server} {kernel : Kernel Return} (round : Round)
    (slot : Slot) (serving : Serving server.client kernel) :
    Serving (serveSlot round server slot).1.client
      (kernel.exec (serveSlot round server slot).2) := by
  unfold serveSlot
  by_cases free : (server.client slot).clientFd = -1
  · simpa [free] using serving
  · obtain ⟨afterRead, stillBusy⟩ := read_stage_keeps round serving free
    simp only [free, if_false]
    by_cases goOn : (readStage round server slot).2.2 = true
    · simp only [goOn, if_true, Kernel.exec_append]
      exact write_stage_keeps round afterRead (stillBusy goOn)
    · simp only [goOn, Bool.false_eq_true, if_false]
      exact afterRead

theorem scan_keeps (round : Round) (slots : List Slot) {server : Server}
    {kernel : Kernel Return} (serving : Serving server.client kernel) :
    Serving (scan round slots server).1.client (kernel.exec (scan round slots server).2) := by
  induction slots generalizing server kernel with
  | nil => exact serving
  | cons slot rest ih =>
      simp only [scan, Kernel.exec_append]
      exact ih (serve_slot_keeps round slot serving)

/-- A descriptor that is not open belongs to no slot. -/
theorem busy_ne_closed {client : Slot → Client} {kernel : Kernel Return}
    (serving : Serving client kernel) {fd : Fd} (unused : kernel.file fd = .closed)
    {slot : Slot} (busy : (client slot).clientFd ≠ -1) : (client slot).clientFd ≠ fd := by
  rintro rfl
  obtain ⟨id, owner, _⟩ := slot_owner serving busy
  rw [unused] at owner
  cases owner

theorem open_slot {client : Slot → Client} {kernel : Kernel Return}
    (serving : Serving client kernel) {fd : Fd} (valid : 0 ≤ fd)
    (unused : kernel.file fd = .closed) {slot : Slot} (free : (client slot).clientFd = -1) :
    Serving (Function.update client slot { client slot with clientFd := fd })
      (kernel.openConn fd) where
  formed := Kernel.open_well_formed serving.formed valid unused
  slot other := by
    by_cases same : other = slot
    · subst same
      rw [Function.update_self]
      have empty : (client other).view = LineEcho.empty := by
        rcases serving.slot other with ⟨_, empty⟩ | ⟨id, owner, _⟩
        · exact empty
        · rw [free] at owner
          exact absurd (serving.formed.owner _ _ owner).1 (by decide)
      refine Or.inr ⟨kernel.accepted, Kernel.open_file_same kernel fd, ?_⟩
      have viewEq : ({ client other with clientFd := fd } : Client).view = LineEcho.empty := empty
      rw [viewEq, Kernel.open_log, serving.formed.fresh _ (Nat.le_refl _)]
      exact ⟨accounted_empty, List.not_mem_nil⟩
    · rw [Function.update_of_ne same]
      by_cases otherFree : (client other).clientFd = -1
      · rcases serving.slot other with isFree | ⟨id, owner, _⟩
        · exact Or.inl isFree
        · rw [otherFree] at owner
          exact absurd (serving.formed.owner _ _ owner).1 (by decide)
      · obtain ⟨id, owner, settled⟩ := slot_owner serving otherFree
        refine Or.inr ⟨id, ?_, settled⟩
        rw [Kernel.open_file_other _ (busy_ne_closed serving unused otherFree)]
        exact owner
  distinct left right leftBusy sameFds := by
    by_cases leftSame : left = slot <;> by_cases rightSame : right = slot
    · rw [leftSame, rightSame]
    · subst leftSame
      rw [Function.update_self, Function.update_of_ne rightSame] at sameFds
      rw [Function.update_self] at leftBusy
      exact absurd sameFds.symm
        (busy_ne_closed serving unused (by rw [← sameFds]; exact leftBusy))
    · subst rightSame
      rw [Function.update_of_ne leftSame] at leftBusy
      rw [Function.update_of_ne leftSame, Function.update_self] at sameFds
      exact absurd sameFds (busy_ne_closed serving unused leftBusy)
    · rw [Function.update_of_ne leftSame] at leftBusy
      rw [Function.update_of_ne leftSame, Function.update_of_ne rightSame] at sameFds
      exact serving.distinct left right leftBusy sameFds
  owned other id owner := by
    by_cases same : other = fd
    · exact ⟨slot, by rw [Function.update_self, same]⟩
    · rw [Kernel.open_file_other _ same] at owner
      obtain ⟨index, indexFd⟩ := serving.owned other id owner
      have notSlot : index ≠ slot := by
        rintro rfl
        rw [free] at indexFd
        rw [← indexFd] at owner
        exact absurd (serving.formed.owner _ _ owner).1 (by decide)
      exact ⟨index, by rw [Function.update_of_ne notSlot, indexFd]⟩
  prefixes := serving.prefixes

/-- An accepted connection that gets no slot is closed at once. -/
theorem refuse_keeps {client : Slot → Client} {kernel : Kernel Return}
    (serving : Serving client kernel) {fd : Fd} (valid : 0 ≤ fd)
    (unused : kernel.file fd = .closed) :
    Serving client (kernel.exec [.accept fd, .io fd .close]) where
  formed := Kernel.refuse_well_formed serving.formed valid unused
  slot slot := by
    rcases serving.slot slot with free | ⟨id, owner, settled⟩
    · exact Or.inl free
    · refine Or.inr ⟨id, by rw [Kernel.refuse_file unused, owner], ?_⟩
      have old := Nat.ne_of_lt (serving.formed.owner _ _ owner).2
      rw [Kernel.refuse_log_other _ _ old]
      exact settled
  distinct := serving.distinct
  owned other id owner := by
    rw [Kernel.refuse_file unused] at owner
    exact serving.owned other id owner
  prefixes id := by
    by_cases newest : id = kernel.accepted
    · rw [newest, Kernel.refuse_log_new serving.formed]
      exact echoes_prefix_close echoes_prefix_nil
    · rw [Kernel.refuse_log_other _ _ newest]
      exact serving.prefixes id

theorem accept_keeps (round : Round) {server : Server} {kernel : Kernel Return}
    (serving : Serving server.client kernel)
    (admitted : kernel.Admits (acceptClient round server).2) :
    Serving (acceptClient round server).1.client
      (kernel.exec (acceptClient round server).2) := by
  rcases accept_cases round server with
    ⟨_, same⟩ | ⟨fd, _, _, _, same⟩ | ⟨fd, slot, _, _, free, same⟩
  · rw [same]
    exact serving
  · rw [same] at admitted ⊢
    exact refuse_keeps serving admitted.1 admitted.2.1
  · rw [same] at admitted ⊢
    exact open_slot serving admitted.1 admitted.2.1 free

theorem serve_round_keeps (round : Round) {server : Server} {kernel : Kernel Return}
    (serving : Serving server.client kernel)
    (admitted : kernel.Admits (serveRound round server).2) :
    Serving (serveRound round server).1.client (kernel.exec (serveRound round server).2) := by
  have selected : Serving (select round server).client kernel := serving
  unfold serveRound at admitted ⊢
  rw [Kernel.admits_append] at admitted
  rw [Kernel.exec_append, reload_client]
  exact scan_keeps round _ (accept_keeps round selected admitted.1)

theorem reachable_serving {world : World} (reached : Reachable system world) :
    Serving world.server.client world.kernel := by
  apply reachable_invariant _ _ reached
  · rintro _ ⟨serverFd, _, rfl⟩
    exact boot_serving serverFd
  · intro world selected after _ serving stepped
    rcases World.step_cases stepped with rfl | ⟨round, _, rfl, admitted⟩
    · exact serving
    · exact serve_round_keeps round serving admitted

/-- At every call of `select` each open connection has exactly one slot; sent, queued and
unfinished bytes are the bytes received on it since its `accept`, and no line is left
unqueued. Every connection, open or closed, was at every moment of its life sent a prefix
of its own input. -/
theorem select_stream_fidelity {world : World} (reached : Reachable system world) :
    (∀ fd id, world.kernel.file fd = .conn id →
      (∃! slot, (world.server.client slot).clientFd = fd) ∧
      ∀ slot, (world.server.client slot).clientFd = fd →
        sent (world.kernel.log id) ++ (world.server.client slot).queued ++
            (world.server.client slot).part = received (world.kernel.log id) ∧
          newline ∉ (world.server.client slot).part) ∧
      ∀ id, EchoesPrefix (world.kernel.log id) := by
  have serving := reachable_serving reached
  refine ⟨?_, serving.prefixes⟩
  intro fd id owner
  have valid := (serving.formed.owner fd id owner).1
  constructor
  · obtain ⟨slot, slotFd⟩ := serving.owned fd id owner
    refine ⟨slot, slotFd, ?_⟩
    intro other otherFd
    exact serving.distinct other slot (by rw [otherFd]; exact fd_ne_of_valid valid) (otherFd.trans slotFd.symm)
  · intro slot slotFd
    obtain ⟨slotId, slotOwner, settled⟩ := slot_owner serving (by rw [slotFd]; exact fd_ne_of_valid valid)
    rw [slotFd, owner, File.conn.injEq] at slotOwner
    rw [slotOwner]
    exact settled

/-- Descriptor 5 is accepted, sends `a`, a newline and `b`, and takes one byte back. -/
def oneByteBack : List Round :=
  let talk : Round :=
    { readable := fun fd => fd == 5
      writable := fun _ => false
      accept := .ok 5
      nonblock := true
      recv := fun _ => .ok [97, newline, 98]
      send := fun _ => .ok 1 }
  [{ talk with readable := fun fd => fd == 3 }, talk,
    { talk with readable := fun _ => false, writable := fun fd => fd == 5 }]

theorem select_stream_fidelity_one_byte :
    Reachable system ((⟨boot 3, Kernel.boot 3⟩ : World).run oneByteBack) ∧
      sent (((⟨boot 3, Kernel.boot 3⟩ : World).run oneByteBack).kernel.log 0) = [97] ∧
      received (((⟨boot 3, Kernel.boot 3⟩ : World).run oneByteBack).kernel.log 0) =
        [97, newline, 98] ∧
      EchoesPrefix (((⟨boot 3, Kernel.boot 3⟩ : World).run oneByteBack).kernel.log 0) := by
  have reached : Reachable system ((⟨boot 3, Kernel.boot 3⟩ : World).run oneByteBack) :=
    World.reachable_run (.start ⟨3, by decide, rfl⟩) oneByteBack (by decide +kernel)
  exact ⟨reached, by decide +kernel, by decide +kernel, (select_stream_fidelity reached).2 0⟩

end LinuxSystemPrograms.SelectServerV2Fidelity
