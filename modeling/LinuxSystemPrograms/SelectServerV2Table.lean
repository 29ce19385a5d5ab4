import LinuxSystemPrograms.SelectRoster
import LinuxSystemPrograms.SelectServerV2Fidelity

/-!
# The connection table of the second select server

The slots, the two master sets and `max_fd` are one roster seen five times
(`Represents`). A stage of the loop body changes the roster at one descriptor; the scan
is a sweep over the descriptors of the busy slots, so a whole pass is `passRoster`.
-/

namespace LinuxSystemPrograms.SelectServerV2Table

open LinuxSystemPrograms.ConnectionAccount
open LinuxSystemPrograms.EchoBuffers
open LinuxSystemPrograms.EchoClient
open LinuxSystemPrograms.SelectRoster
open LinuxSystemPrograms.SelectServerV2
open LinuxSystemPrograms.SelectServerV2Fidelity
open LinuxSystemPrograms.Sockets
open LinuxSystemPrograms.Transition

set_option autoImplicit false

/-- The slots hold the connections of `roster`, each of them once. -/
structure Holds (client : Slot → Client) (roster : Roster) : Prop where
  busy : ∀ slot, (client slot).clientFd ≠ -1 →
    roster (client slot).clientFd = some (contents (client slot))
  free : ∀ slot, (client slot).clientFd = -1 → contents (client slot) = Buffers.empty
  distinct : ∀ slot other, (client slot).clientFd ≠ -1 →
    (client slot).clientFd = (client other).clientFd → slot = other
  owned : ∀ fd, (roster fd).isSome = true → fd ≠ -1 ∧ ∃ slot, (client slot).clientFd = fd

structure Represents (server : Server) (roster : Roster) : Prop where
  holds : Holds server.client roster
  watches : Watches server.serverFd server.maxFd server.masterRead server.masterWrite roster

section Slots

variable {client : Slot → Client} {roster : Roster} {slot : Slot}

theorem holds_keep (holds : Holds client roster) (busy : (client slot).clientFd ≠ -1)
    {after : Client} (sameFd : after.clientFd = (client slot).clientFd) :
    Holds (Function.update client slot after)
      (Function.update roster (client slot).clientFd (some (contents after))) := by
  have fdOf := fun index => update_client_fd sameFd index
  constructor
  · intro index indexBusy
    rw [fdOf] at indexBusy ⊢
    by_cases same : index = slot
    · rw [same, Function.update_self, Function.update_self]
    · have different : (client index).clientFd ≠ (client slot).clientFd := fun fds =>
        same (holds.distinct index slot indexBusy fds)
      rw [Function.update_of_ne same, Function.update_of_ne different]
      exact holds.busy index indexBusy
  · intro index indexFree
    rw [fdOf] at indexFree
    have different : index ≠ slot := by
      rintro rfl
      exact busy indexFree
    rw [Function.update_of_ne different]
    exact holds.free index indexFree
  · intro left right
    rw [fdOf left, fdOf right]
    exact holds.distinct left right
  · intro fd isSome
    have present : (roster fd).isSome = true := by
      by_cases same : fd = (client slot).clientFd
      · rw [same, holds.busy slot busy]
        rfl
      · rwa [Function.update_of_ne same] at isSome
    obtain ⟨valid, index, indexFd⟩ := holds.owned fd present
    exact ⟨valid, index, (fdOf index).trans indexFd⟩

theorem holds_drop (holds : Holds client roster) (busy : (client slot).clientFd ≠ -1)
    (after : Client) :
    Holds (Function.update client slot after.reset)
      (Function.update roster (client slot).clientFd none) := by
  have others : ∀ index, (Function.update client slot after.reset index).clientFd ≠ -1 →
      index ≠ slot := by
    rintro index indexBusy rfl
    rw [Function.update_self] at indexBusy
    exact indexBusy rfl
  constructor
  · intro index indexBusy
    have different := others index indexBusy
    rw [Function.update_of_ne different] at indexBusy ⊢
    have fds : (client index).clientFd ≠ (client slot).clientFd := fun fds =>
      different (holds.distinct index slot indexBusy fds)
    rw [Function.update_of_ne fds]
    exact holds.busy index indexBusy
  · intro index indexFree
    by_cases same : index = slot
    · rw [same, Function.update_self]
      exact reset_contents after
    · rw [Function.update_of_ne same] at indexFree ⊢
      exact holds.free index indexFree
  · intro left right leftBusy sameFds
    have rightBusy := leftBusy
    rw [sameFds] at rightBusy
    rw [Function.update_of_ne (others left leftBusy)] at sameFds leftBusy
    rw [Function.update_of_ne (others right rightBusy)] at sameFds
    exact holds.distinct left right leftBusy sameFds
  · intro fd isSome
    have different : fd ≠ (client slot).clientFd := by
      rintro rfl
      rw [Function.update_self] at isSome
      exact Bool.noConfusion isSome
    rw [Function.update_of_ne different] at isSome
    obtain ⟨valid, index, indexFd⟩ := holds.owned fd isSome
    have notSlot : index ≠ slot := by
      rintro rfl
      exact different indexFd.symm
    exact ⟨valid, index, by rw [Function.update_of_ne notSlot, indexFd]⟩

theorem holds_open (holds : Holds client roster) (free : (client slot).clientFd = -1) {fd : Fd}
    (valid : fd ≠ -1) (unused : roster fd = none) :
    Holds (Function.update client slot { client slot with clientFd := fd })
      (Function.update roster fd (some Buffers.empty)) := by
  have notFd : ∀ index, (client index).clientFd ≠ fd := by
    rintro index rfl
    rw [holds.busy index valid] at unused
    cases unused
  constructor
  · intro index indexBusy
    by_cases same : index = slot
    · rw [same, Function.update_self, Function.update_self]
      exact congrArg some (holds.free slot free).symm
    · rw [Function.update_of_ne same] at indexBusy ⊢
      rw [Function.update_of_ne (notFd index)]
      exact holds.busy index indexBusy
  · intro index indexFree
    by_cases same : index = slot
    · rw [same, Function.update_self] at indexFree
      exact absurd indexFree valid
    · rw [Function.update_of_ne same] at indexFree ⊢
      exact holds.free index indexFree
  · intro left right leftBusy sameFds
    by_cases leftSame : left = slot <;> by_cases rightSame : right = slot
    · rw [leftSame, rightSame]
    · rw [leftSame, Function.update_self, Function.update_of_ne rightSame] at sameFds
      exact absurd sameFds.symm (notFd right)
    · rw [rightSame, Function.update_self, Function.update_of_ne leftSame] at sameFds
      exact absurd sameFds (notFd left)
    · rw [Function.update_of_ne leftSame] at leftBusy sameFds
      rw [Function.update_of_ne rightSame] at sameFds
      exact holds.distinct left right leftBusy sameFds
  · intro other isSome
    by_cases same : other = fd
    · exact ⟨by rwa [same], slot, by rw [Function.update_self, same]⟩
    · rw [Function.update_of_ne same] at isSome
      obtain ⟨validOther, index, indexFd⟩ := holds.owned other isSome
      have notSlot : index ≠ slot := by
        rintro rfl
        exact validOther (indexFd.symm.trans free)
      exact ⟨validOther, index, by rw [Function.update_of_ne notSlot, indexFd]⟩

end Slots

/-! ## The stages of the loop body -/

/-- What a stage that does `served` to the connection of a slot leaves behind. -/
structure Refines (server : Server) (slot : Slot) (roster : Roster) (served : Served)
    (after : Server) (actions : List (Action Return)) : Prop where
  represents : Represents after (Function.update roster (server.client slot).clientFd served.1)
  calls : actions = served.2.map (.io (server.client slot).clientFd)
  sets : after.readfds = server.readfds ∧ after.writefds = server.writefds
  bounds : after.serverFd = server.serverFd ∧ after.maxFd = server.maxFd
  others : ∀ other, other ≠ slot → after.client other = server.client other
  fd : served.1.isSome = true → (after.client slot).clientFd = (server.client slot).clientFd

section Stages

variable {server : Server} {roster : Roster} {slot : Slot}

theorem holds_present (holds : Holds server.client roster)
    (busy : (server.client slot).clientFd ≠ -1) :
    (roster (server.client slot).clientFd).isSome = true := by
  rw [holds.busy slot busy]
  rfl

theorem refines_dropped (represents : Represents server roster)
    (busy : (server.client slot).clientFd ≠ -1) (after : Client) (events : List Event) :
    Refines server slot roster (none, events) (dropped server slot after)
      (events.map (.io (server.client slot).clientFd)) where
  represents :=
    { holds := holds_drop represents.holds busy after
      watches := watches_closed represents.watches (holds_present represents.holds busy) }
  calls := rfl
  sets := ⟨rfl, rfl⟩
  bounds := ⟨rfl, rfl⟩
  others _ different := Function.update_of_ne different _ _
  fd isSome := Bool.noConfusion isSome

theorem refines_kept (represents : Represents server roster)
    (busy : (server.client slot).clientFd ≠ -1) {after : Client}
    (sameFd : after.clientFd = (server.client slot).clientFd) {writeAfter : FdSet}
    (writeOthers : ∀ other, other ≠ (server.client slot).clientFd →
      writeAfter other = server.masterWrite other)
    (writeSame : writeAfter (server.client slot).clientFd = pending (contents after))
    (events : List Event) :
    Refines server slot roster (some (contents after), events)
      { server with client := Function.update server.client slot after, masterWrite := writeAfter }
      (events.map (.io (server.client slot).clientFd)) where
  represents :=
    { holds := holds_keep represents.holds busy sameFd
      watches := watches_kept represents.watches (holds_present represents.holds busy) writeOthers
        writeSame }
  calls := rfl
  sets := ⟨rfl, rfl⟩
  bounds := ⟨rfl, rfl⟩
  others _ different := Function.update_of_ne different _ _
  fd _ := (congrArg Client.clientFd (Function.update_self _ _ _)).trans sameFd

theorem refines_untouched (represents : Represents server roster)
    (busy : (server.client slot).clientFd ≠ -1) :
    Refines server slot roster (some (contents (server.client slot)), []) server [] where
  represents := by
    rw [← represents.holds.busy slot busy, Function.update_eq_self]
    exact represents
  calls := rfl
  sets := ⟨rfl, rfl⟩
  bounds := ⟨rfl, rfl⟩
  others _ _ := rfl
  fd _ := rfl

theorem read_stage_refines (represents : Represents server roster)
    (busy : (server.client slot).clientFd ≠ -1) (round : Round) {served : Served}
    (servedEq : serveRead (server.readfds (server.client slot).clientFd)
      (round.recv (server.client slot).clientFd) (contents (server.client slot)) = served) :
    Refines server slot roster served (readStage round server slot).1
        (readStage round server slot).2.1 ∧
      (readStage round server slot).2.2 = served.1.isSome := by
  cases ready : server.readfds (server.client slot).clientFd with
  | false =>
      rw [read_stage_idle round ready, ← servedEq, ready]
      exact ⟨refines_untouched represents busy, rfl⟩
  | true =>
      rw [ready] at servedEq
      by_cases failed : recvCode ((server.client slot).view.receive
          (recv recvBufSize (round.recv (server.client slot).clientFd))).2 = -1
      · rw [read_stage_failed ready rfl failed, ← servedEq, read_conn_failed failed]
        exact ⟨refines_dropped represents busy _ _, rfl⟩
      · rw [read_stage_kept ready rfl failed, ← servedEq, read_conn_kept failed]
        have fdEq := (Client.receive_view (server.client slot)
          (round.recv (server.client slot).clientFd)).2.2
        constructor
        · apply refines_kept represents busy fdEq
          · intro other different
            exact write_bit_others _ different
          · exact write_bit_receive (watches_write_bit represents.watches (represents.holds.busy slot busy))
        · rfl

theorem write_stage_refines (represents : Represents server roster)
    (busy : (server.client slot).clientFd ≠ -1) (round : Round) {served : Served}
    (servedEq : serveWrite sendCode (server.writefds (server.client slot).clientFd)
      (round.send (server.client slot).clientFd) (contents (server.client slot)) = served) :
    Refines server slot roster served (writeStage round server slot).1
      (writeStage round server slot).2 := by
  cases ready : server.writefds (server.client slot).clientFd with
  | false =>
      rw [write_stage_idle round ready, ← servedEq, ready]
      exact refines_untouched represents busy
  | true =>
      rw [ready] at servedEq
      by_cases failed : sendCode ((server.client slot).view.flush
          (send (server.client slot).queued.length
            (round.send (server.client slot).clientFd))).2 = -1
      · rw [write_stage_failed ready rfl failed, ← servedEq, write_conn_failed failed]
        exact refines_dropped represents busy _ _
      · rw [write_stage_kept ready rfl failed, ← servedEq, write_conn_kept failed]
        have fdEq := (Client.flush_view (server.client slot)
          (round.send (server.client slot).clientFd)).2.2
        apply refines_kept represents busy fdEq
        · intro other different
          exact write_bit_others _ different
        · exact write_bit_flush (watches_write_bit represents.watches (represents.holds.busy slot busy))

theorem refines_append {middle : Buffers} {events : List Event} {read written : Server}
    {readActions writeActions : List (Action Return)} {served : Served}
    (reading : Refines server slot roster (some middle, events) read readActions)
    (writing : Refines read slot
      (Function.update roster (server.client slot).clientFd (some middle)) served written
      writeActions) :
    Refines server slot roster (served.1, events ++ served.2) written
      (readActions ++ writeActions) := by
  have fdEq := reading.fd rfl
  constructor
  · have represents := writing.represents
    rwa [fdEq, Function.update_idem] at represents
  · rw [reading.calls, writing.calls, fdEq, List.map_append]
  · exact ⟨writing.sets.1.trans reading.sets.1, writing.sets.2.trans reading.sets.2⟩
  · exact ⟨writing.bounds.1.trans reading.bounds.1, writing.bounds.2.trans reading.bounds.2⟩
  · intro other different
    rw [writing.others other different, reading.others other different]
  · intro isSome
    rw [writing.fd isSome, fdEq]

theorem serve_slot_refines (represents : Represents server roster)
    (busy : (server.client slot).clientFd ≠ -1) (round : Round) :
    Refines server slot roster
      (serve sendCode round server.readfds server.writefds (server.client slot).clientFd
        (roster (server.client slot).clientFd))
      (serveSlot round server slot).1 (serveSlot round server slot).2 := by
  rw [represents.holds.busy slot busy, serveSlot, if_neg busy]
  cases servedEq : serveRead (server.readfds (server.client slot).clientFd)
      (round.recv (server.client slot).clientFd) (contents (server.client slot)) with
  | mk entry events =>
      obtain ⟨reading, goOn⟩ := read_stage_refines represents busy round servedEq
      cases entry with
      | none =>
          rw [serve_closed servedEq]
          simp only [goOn, Option.isSome_none, Bool.false_eq_true, if_false]
          exact reading
      | some middle =>
          have fdEq := reading.fd rfl
          have stillBusy : ((readStage round server slot).1.client slot).clientFd ≠ -1 := by
            rw [fdEq]
            exact busy
          have left := reading.represents.holds.busy slot stillBusy
          rw [fdEq, Function.update_self, Option.some.injEq] at left
          rw [serve_open servedEq]
          simp only [goOn, Option.isSome_some, if_true]
          apply refines_append reading
          apply write_stage_refines reading.represents stillBusy
          rw [fdEq, reading.sets.2, ← left]

end Stages

/-! ## A whole pass -/

def busyFds (client : Slot → Client) (slots : List Slot) : List Fd :=
  (slots.filter fun slot => (client slot).clientFd ≠ -1).map fun slot => (client slot).clientFd

section Scan

variable {server : Server} {roster : Roster}

theorem busy_fds_congr {before after : Slot → Client} {slots : List Slot}
    (same : ∀ slot ∈ slots, after slot = before slot) :
    busyFds after slots = busyFds before slots := by
  unfold busyFds
  rw [List.filter_congr fun slot member => by rw [same slot member]]
  apply List.map_congr_left
  intro slot member
  rw [same slot (List.mem_of_mem_filter member)]

theorem busy_fds_nodup {client : Slot → Client} (holds : Holds client roster)
    {slots : List Slot} (nodup : slots.Nodup) : (busyFds client slots).Nodup := by
  apply List.Nodup.map_on _ (nodup.filter _)
  intro slot member other _ sameFds
  have busy := (List.mem_filter.mp member).2
  exact holds.distinct slot other (of_decide_eq_true busy) sameFds

theorem mem_busy_fds {client : Slot → Client} (holds : Holds client roster) {fd : Fd} :
    fd ∈ busyFds client (List.finRange maxConnections) ↔ (roster fd).isSome = true := by
  constructor
  · intro member
    obtain ⟨slot, inSlots, rfl⟩ := List.mem_map.mp member
    have busy := of_decide_eq_true (List.mem_filter.mp inSlots).2
    rw [holds.busy slot busy]
    rfl
  · intro isSome
    obtain ⟨valid, slot, slotFd⟩ := holds.owned fd isSome
    apply List.mem_map.mpr
    refine ⟨slot, List.mem_filter.mpr ⟨List.mem_finRange slot, ?_⟩, slotFd⟩
    rw [slotFd]
    exact decide_eq_true valid

/-- The scan serves the busy slots one after the other, each for itself. -/
theorem scan_refines (represents : Represents server roster) (round : Round)
    {slots : List Slot} (nodup : slots.Nodup) :
    let swept := sweep (serve sendCode round server.readfds server.writefds)
      (busyFds server.client slots) roster
    Represents (scan round slots server).1 swept.1 ∧ (scan round slots server).2 = swept.2 ∧
      (scan round slots server).1.serverFd = server.serverFd ∧
      (scan round slots server).1.maxFd = server.maxFd := by
  induction slots generalizing server roster with
  | nil => exact ⟨represents, rfl, rfl, rfl⟩
  | cons slot rest ih =>
      obtain ⟨notLater, restNodup⟩ := List.nodup_cons.mp nodup
      rw [scan]
      by_cases free : (server.client slot).clientFd = -1
      · have skipped : serveSlot round server slot = (server, []) := by
          rw [serveSlot, if_pos free]
        have sameFds : busyFds server.client (slot :: rest) = busyFds server.client rest := by
          rw [busyFds, List.filter_cons_of_neg (by simp [free])]
          rfl
        rw [skipped, sameFds]
        exact ih represents restNodup
      · have stage := serve_slot_refines represents free round
        have laterFds : busyFds (serveSlot round server slot).1.client rest =
            busyFds server.client rest := by
          apply busy_fds_congr
          intro other member
          apply stage.others
          rintro rfl
          exact notLater member
        have sameFds : busyFds server.client (slot :: rest) =
            (server.client slot).clientFd :: busyFds server.client rest := by
          rw [busyFds, List.filter_cons_of_pos (by simp [free]), List.map_cons]
          rfl
        obtain ⟨scanned, calls, listener, maxFd⟩ := ih stage.represents restNodup
        rw [laterFds, stage.sets.1, stage.sets.2] at scanned calls
        rw [sameFds]
        constructor
        · exact scanned
        constructor
        · exact congrArg₂ (· ++ ·) stage.calls calls
        · exact ⟨listener.trans stage.bounds.1, maxFd.trans stage.bounds.2⟩

end Scan

/-! ## Accepting -/

/-- What the accept block may do to a server that represents `roster`. -/
structure Admitted (round : Round) (server : Server) (roster : Roster) (accepted : Option Fd)
    (after : Server) (actions : List (Action Return)) : Prop where
  represents : Represents after (withAccepted roster accepted)
  fresh : ∀ fd, accepted = some fd → fd ≠ server.serverFd ∧ roster fd = none
  sets : after.readfds = server.readfds ∧ after.writefds = server.writefds
  listener : after.serverFd = server.serverFd
  maxFd : after.maxFd = accepted.elim server.maxFd (max server.maxFd)
  calls : (accepted = none ∧ actions = []) ∨
    (accepted = none ∧ ∃ fd, actions = [.accept fd, .io fd .close]) ∨
    ∃ fd, accepted = some fd ∧ actions = [.accept fd]

section Accepting

variable {server : Server} {roster : Roster}

theorem opened_max_fd (slot : Slot) (fd : Fd) :
    (opened server slot fd).maxFd = max server.maxFd fd :=
  (max_def_lt server.maxFd fd).symm

theorem represents_opened (represents : Represents server roster) {slot : Slot}
    (free : (server.client slot).clientFd = -1) {fd : Fd} (valid : fd ≠ -1)
    (notServer : fd ≠ server.serverFd) (unused : roster fd = none) :
    Represents (opened server slot fd) (Function.update roster fd (some Buffers.empty)) where
  holds := holds_open represents.holds free valid unused
  watches := by
    rw [opened_max_fd]
    exact watches_opened represents.watches notServer unused

theorem accept_admitted (represents : Represents server roster) (round : Round)
    (unused : ∀ fd, .accept fd ∈ (acceptClient round server).2 →
      fd ≠ -1 ∧ fd ≠ server.serverFd ∧ roster fd = none) :
    ∃ accepted, Admitted round server roster accepted (acceptClient round server).1
      (acceptClient round server).2 := by
  rcases accept_cases round server with
    ⟨_, same⟩ | ⟨fd, _, _, _, same⟩ | ⟨fd, slot, _, _, free, same⟩
  · rw [same]
    exact ⟨none, represents, fun _ some => (Option.some_ne_none _ some.symm).elim, ⟨rfl, rfl⟩, rfl, rfl,
      Or.inl ⟨rfl, rfl⟩⟩
  · rw [same]
    exact ⟨none, represents, fun _ some => (Option.some_ne_none _ some.symm).elim, ⟨rfl, rfl⟩, rfl, rfl,
      Or.inr (Or.inl ⟨rfl, fd, rfl⟩)⟩
  · rw [same] at unused ⊢
    obtain ⟨valid, notServer, none⟩ := unused fd List.mem_cons_self
    refine ⟨some fd, represents_opened represents free valid notServer none, ?_, ⟨rfl, rfl⟩, rfl,
      opened_max_fd slot fd, Or.inr (Or.inr ⟨fd, rfl, rfl⟩)⟩
    intro other isFd
    rw [← Option.some.inj isFd]
    exact ⟨notServer, none⟩

end Accepting

/-! ## One pass -/

structure Passed (round : Round) (server : Server) (roster : Roster) (accepted : Option Fd)
    (opening : List (Action Return)) (fds : List Fd) : Prop where
  opened : Admitted round (select round server) roster accepted
    (acceptClient round (select round server)).1 opening
  nodup : fds.Nodup
  members : ∀ fd, fd ∈ fds ↔ (withAccepted roster accepted fd).isSome = true
  calls : (serveRound round server).2 = opening ++
    (sweep (serve sendCode round (select round server).readfds (select round server).writefds) fds
      (withAccepted roster accepted)).2
  represents : Represents (serveRound round server).1
    (sweep (serve sendCode round (select round server).readfds (select round server).writefds) fds
      (withAccepted roster accepted)).1
  sets : (serveRound round server).1.readfds = (serveRound round server).1.masterRead ∧
    (serveRound round server).1.writefds = (serveRound round server).1.masterWrite
  listener : (serveRound round server).1.serverFd = server.serverFd
  maxFd : (serveRound round server).1.maxFd = accepted.elim server.maxFd (max server.maxFd)

theorem represents_reload {server : Server} {roster : Roster}
    (represents : Represents server roster) : Represents (reload server) roster :=
  ⟨represents.holds, represents.watches⟩

theorem represents_select {server : Server} {roster : Roster}
    (represents : Represents server roster) (round : Round) :
    Represents (select round server) roster :=
  ⟨represents.holds, represents.watches⟩

theorem reload_sets (server : Server) : (reload server).readfds = (reload server).masterRead ∧
    (reload server).writefds = (reload server).masterWrite := ⟨rfl, rfl⟩

theorem reload_listener (server : Server) : (reload server).serverFd = server.serverFd := rfl

theorem reload_max_fd (server : Server) : (reload server).maxFd = server.maxFd := rfl

theorem serve_round_passed {server : Server} {roster : Roster}
    (represents : Represents server roster) (round : Round)
    (unused : ∀ fd, .accept fd ∈ (acceptClient round (select round server)).2 →
      fd ≠ -1 ∧ fd ≠ server.serverFd ∧ roster fd = none) :
    ∃ accepted fds, Passed round server roster accepted
      (acceptClient round (select round server)).2 fds := by
  obtain ⟨accepted, opened⟩ :=
    accept_admitted (represents_select represents round) round unused
  have scanned := scan_refines opened.represents round (List.nodup_finRange maxConnections)
  have eq := serve_round_eq round server
  generalize scan round (List.finRange maxConnections)
    (acceptClient round (select round server)).1 = result at scanned eq
  obtain ⟨represented, calls, listener, maxFd⟩ := scanned
  rw [opened.sets.1, opened.sets.2] at represented calls
  refine ⟨accepted, busyFds (acceptClient round (select round server)).1.client
    (List.finRange maxConnections), ?_⟩
  constructor
  · exact opened
  · exact busy_fds_nodup opened.represents.holds (List.nodup_finRange maxConnections)
  · exact fun fd => mem_busy_fds opened.represents.holds
  · rw [eq, calls]
  · rw [eq]
    exact represents_reload represented
  · rw [eq]
    exact reload_sets result.1
  · rw [eq]
    exact (reload_listener result.1).trans (listener.trans opened.listener)
  · rw [eq]
    exact (reload_max_fd result.1).trans (maxFd.trans opened.maxFd)

/-! ## Every run -/

structure Tabled (world : World) (roster : Roster) : Prop where
  represents : Represents world.server roster
  sets : world.server.readfds = world.server.masterRead ∧
    world.server.writefds = world.server.masterWrite
  listener : world.kernel.file world.server.serverFd = .listener

theorem boot_tabled (serverFd : Fd) :
    Tabled ⟨boot serverFd, Kernel.boot serverFd⟩ fun _ => none where
  represents :=
    { holds :=
        { busy := fun _ busy => absurd rfl busy
          free := fun _ _ => init_contents
          distinct := fun _ _ busy => absurd rfl busy
          owned := fun _ isSome => Bool.noConfusion isSome }
      watches := watches_listener serverFd }
  sets := ⟨rfl, rfl⟩
  listener := Kernel.boot_file_listener serverFd

theorem tabled_owner {world : World} {roster : Roster} (tabled : Tabled world roster)
    (serving : Serving world.server.client world.kernel) {fd : Fd}
    (isSome : (roster fd).isSome = true) : ∃ id, world.kernel.file fd = .conn id := by
  obtain ⟨valid, slot, slotFd⟩ := tabled.represents.holds.owned fd isSome
  obtain ⟨id, owner, _⟩ := slot_owner serving (by rwa [slotFd])
  exact ⟨id, by rwa [← slotFd]⟩

/-- A descriptor that is not open is not in use. -/
theorem tabled_unused {world : World} {roster : Roster} (tabled : Tabled world roster)
    (serving : Serving world.server.client world.kernel) {fd : Fd} (valid : 0 ≤ fd)
    (closed : world.kernel.file fd = .closed) :
    fd ≠ -1 ∧ fd ≠ world.server.serverFd ∧ roster fd = none := by
  refine ⟨fd_ne_of_valid valid, ?_, ?_⟩
  · rintro rfl
    rw [tabled.listener] at closed
    cases closed
  · cases entry : roster fd with
    | none => rfl
    | some buffers =>
        obtain ⟨id, owner⟩ := tabled_owner tabled serving (by rw [entry]; rfl)
        rw [closed] at owner
        cases owner

theorem admitted_accept {server : Server} {kernel : Kernel Return} {round : Round}
    (admitted : kernel.Admits (acceptClient round server).2) {fd : Fd}
    (member : .accept fd ∈ (acceptClient round server).2) : 0 ≤ fd ∧ kernel.file fd = .closed := by
  rcases accept_cases round server with
    ⟨_, same⟩ | ⟨other, _, _, _, same⟩ | ⟨other, slot, _, _, _, same⟩
  all_goals rw [same] at admitted member
  · cases member
  · obtain rfl : fd = other := by simpa using member
    exact ⟨admitted.1, admitted.2.1⟩
  · obtain rfl : fd = other := by simpa using member
    exact ⟨admitted.1, admitted.2.1⟩

theorem admitted_opening {world : World} {round : Round}
    (admitted : world.kernel.Admits (serveRound round world.server).2) :
    world.kernel.Admits (acceptClient round (select round world.server)).2 := by
  rw [serve_round_eq] at admitted
  exact (Kernel.admits_append.mp admitted).1

theorem tabled_passed {world : World} {roster : Roster} (tabled : Tabled world roster)
    (serving : Serving world.server.client world.kernel) {round : Round}
    (admitted : world.kernel.Admits (acceptClient round (select round world.server)).2) :
    ∃ accepted fds, Passed round world.server roster accepted
      (acceptClient round (select round world.server)).2 fds := by
  apply serve_round_passed tabled.represents
  intro fd member
  obtain ⟨valid, closed⟩ := admitted_accept admitted member
  exact tabled_unused tabled serving valid closed

theorem tabled_next {world : World} {roster : Roster} (tabled : Tabled world roster)
    {round : Round} {accepted : Option Fd} {opening : List (Action Return)} {fds : List Fd}
    (passed : Passed round world.server roster accepted opening fds)
    (admitted : world.kernel.Admits (serveRound round world.server).2) :
    Tabled (world.next round)
      (sweep (serve sendCode round (select round world.server).readfds
        (select round world.server).writefds) fds (withAccepted roster accepted)).1 where
  represents := passed.represents
  sets := passed.sets
  listener := by
    rw [World.next, passed.listener]
    exact Kernel.exec_listener tabled.listener admitted

theorem reachable_tabled {world : World} (reached : Reachable system world) :
    ∃ roster, Tabled world roster := by
  apply reachable_invariant _ _ reached
  · rintro _ ⟨serverFd, _, rfl⟩
    exact ⟨_, boot_tabled serverFd⟩
  · rintro world selected after reachedBefore ⟨roster, tabled⟩ stepped
    rcases World.step_cases stepped with rfl | ⟨round, _, rfl, admitted⟩
    · exact ⟨roster, tabled⟩
    · obtain ⟨accepted, fds, passed⟩ :=
        tabled_passed tabled (reachable_serving reachedBefore) (admitted_opening admitted)
      exact ⟨_, tabled_next tabled passed admitted⟩

structure Consistent (server : Server) : Prop where
  distinct : ∀ slot other, (server.client slot).clientFd ≠ -1 →
    (server.client slot).clientFd = (server.client other).clientFd → slot = other
  masterRead : ∀ fd, server.masterRead fd = true ↔ fd = server.serverFd ∨
    ∃ slot, (server.client slot).clientFd ≠ -1 ∧ (server.client slot).clientFd = fd
  masterWrite : ∀ fd, server.masterWrite fd = true ↔
    ∃ slot, (server.client slot).clientFd ≠ -1 ∧ (server.client slot).clientFd = fd ∧
      (server.client slot).sendOffset < (server.client slot).sendLen
  maxFd : server.serverFd ≤ server.maxFd ∧ ∀ slot, (server.client slot).clientFd ≠ -1 →
    (server.client slot).clientFd ≤ server.maxFd
  free : ∀ slot, (server.client slot).clientFd = -1 →
    (server.client slot).used = 0 ∧ (server.client slot).sendLen = 0 ∧
      (server.client slot).sendOffset = 0
  sets : server.readfds = server.masterRead ∧ server.writefds = server.masterWrite

theorem roster_busy {server : Server} {roster : Roster} (represents : Represents server roster)
    {fd : Fd} {buffers : Buffers} : roster fd = some buffers ↔
      ∃ slot, (server.client slot).clientFd ≠ -1 ∧ (server.client slot).clientFd = fd ∧
        contents (server.client slot) = buffers := by
  constructor
  · intro entry
    obtain ⟨valid, slot, slotFd⟩ := represents.holds.owned fd (by rw [entry]; rfl)
    have busy : (server.client slot).clientFd ≠ -1 := by rwa [slotFd]
    have present := represents.holds.busy slot busy
    rw [slotFd, entry, Option.some.injEq] at present
    exact ⟨slot, busy, slotFd, present.symm⟩
  · rintro ⟨slot, busy, rfl, rfl⟩
    exact represents.holds.busy slot busy

theorem tabled_consistent {world : World} {roster : Roster} (tabled : Tabled world roster) :
    Consistent world.server where
  distinct := tabled.represents.holds.distinct
  masterRead fd := by
    rw [tabled.represents.watches.read, Bool.or_eq_true, decide_eq_true_iff,
      Option.isSome_iff_exists]
    apply or_congr Iff.rfl
    constructor
    · rintro ⟨buffers, entry⟩
      obtain ⟨slot, busy, slotFd, _⟩ := (roster_busy tabled.represents).mp entry
      exact ⟨slot, busy, slotFd⟩
    · rintro ⟨slot, busy, slotFd⟩
      exact ⟨_, (roster_busy tabled.represents).mpr ⟨slot, busy, slotFd, rfl⟩⟩
  masterWrite fd := by
    rw [tabled.represents.watches.write, Option.any_eq_true]
    constructor
    · rintro ⟨buffers, entry, isPending⟩
      obtain ⟨slot, busy, slotFd, rfl⟩ := (roster_busy tabled.represents).mp entry
      exact ⟨slot, busy, slotFd, Client.queued_ne_nil.mp ((pending_contents _).mp isPending)⟩
    · rintro ⟨slot, busy, slotFd, rest⟩
      exact ⟨_, (roster_busy tabled.represents).mpr ⟨slot, busy, slotFd, rfl⟩,
        (pending_contents _).mpr (Client.queued_ne_nil.mpr rest)⟩
  maxFd := by
    constructor
    · exact tabled.represents.watches.bound.1
    · exact fun slot busy =>
        tabled.represents.watches.bound.2 _ (holds_present tabled.represents.holds busy)
  free slot free := by
    have same := (tabled.represents.holds.free slot free).trans init_contents.symm
    obtain ⟨used, _, sendLen, sendOffset, _⟩ := cursors_of_contents same
    exact ⟨used, sendLen, sendOffset⟩
  sets := tabled.sets

/-- Every call on a connection is one that `select` has announced for its descriptor, which
still names the connection it named then. -/
def Announced (world : World) (round : Round) (now : Kernel Return) (action : Action Return) :
    Prop :=
  ∀ fd event, action = .io fd event → event ≠ .close →
    Reported (select round world.server).readfds (select round world.server).writefds fd event ∧
      ∃ id, world.kernel.file fd = .conn id ∧ now.file fd = .conn id

theorem announced_accept {world : World} {round : Round} {now : Kernel Return} {fd : Fd} :
    Announced world round now (.accept fd) := by
  intro other event io
  cases io

theorem announced_close {world : World} {round : Round} {now : Kernel Return} {fd : Fd} :
    Announced world round now (.io fd .close) := by
  intro other event io notClose
  cases io
  exact absurd rfl notClose

/-- The accept block leaves alone every descriptor that was open. -/
theorem opening_file {kernel : Kernel Return} {opening : List (Action Return)}
    {accepted : Option Fd}
    (calls : (accepted = none ∧ opening = []) ∨
      (accepted = none ∧ ∃ fd, opening = [.accept fd, .io fd .close]) ∨
      ∃ fd, accepted = some fd ∧ opening = [.accept fd])
    (unused : ∀ fd, .accept fd ∈ opening → kernel.file fd = .closed) {fd : Fd}
    (isOpen : kernel.file fd ≠ .closed) :
    (kernel.exec opening).file fd = kernel.file fd := by
  rcases calls with ⟨_, rfl⟩ | ⟨_, other, rfl⟩ | ⟨other, _, rfl⟩
  · rfl
  · rw [Kernel.refuse_file (unused other List.mem_cons_self)]
  · have different : fd ≠ other := by
      rintro rfl
      exact isOpen (unused fd List.mem_cons_self)
    exact Kernel.open_file_other kernel different

/-- What `select` leaves in its sets it was given. -/
theorem reported_member {world : World} {roster : Roster} (tabled : Tabled world roster)
    {round : Round} {fd : Fd} {event : Event} (notServer : fd ≠ world.server.serverFd)
    (reported : Reported (select round world.server).readfds
      (select round world.server).writefds fd event) : (roster fd).isSome = true := by
  have read : (select round world.server).readfds fd = true → (roster fd).isSome = true := by
    intro ready
    simp only [select, Bool.and_eq_true, tabled.sets.1, tabled.represents.watches.read,
      Bool.or_eq_true, decide_eq_true_eq, notServer, false_or] at ready
    exact ready.1.1
  have write : (select round world.server).writefds fd = true → (roster fd).isSome = true := by
    intro ready
    simp only [select, Bool.and_eq_true, tabled.sets.2, tabled.represents.watches.write,
      Option.any_eq_true] at ready
    obtain ⟨⟨⟨buffers, entry, _⟩, _⟩, _⟩ := ready
    rw [entry]
    rfl
  cases event with
  | recv result => exact read reported
  | send offered result => exact write reported
  | close => exact reported.elim read write
  | note note =>
      cases note with
      | ofRecv exit ret => exact read reported
      | ofSend exit ret => exact write reported
      | ofEvent rdhup exit => exact reported.elim

/-- The accepted descriptor cannot have been reported. -/
theorem passed_fresh {world : World} {roster : Roster} (tabled : Tabled world roster)
    {round : Round} {accepted : Option Fd} {opening : List (Action Return)} {fds : List Fd}
    (passed : Passed round world.server roster accepted opening fds) {fd : Fd}
    (same : accepted = some fd) :
    roster fd = none ∧ (select round world.server).readfds fd = false ∧
      (select round world.server).writefds fd = false := by
  obtain ⟨notServer, unused⟩ := passed.opened.fresh fd same
  have unreported : ¬Reported (select round world.server).readfds
      (select round world.server).writefds fd .close := by
    intro reported
    have isSome := reported_member tabled notServer reported
    rw [unused] at isSome
    cases isSome
  obtain ⟨unread, unwritten⟩ := not_or.mp unreported
  exact ⟨unused, Bool.eq_false_iff.mpr unread, Bool.eq_false_iff.mpr unwritten⟩

theorem round_announced {world : World} {roster : Roster} (tabled : Tabled world roster)
    (serving : Serving world.server.client world.kernel) {round : Round}
    (admitted : world.kernel.Admits (serveRound round world.server).2) :
    world.kernel.Along (Announced world round) (serveRound round world.server).2 := by
  obtain ⟨accepted, fds, passed⟩ := tabled_passed tabled serving (admitted_opening admitted)
  have unused : ∀ fd, .accept fd ∈ (acceptClient round (select round world.server)).2 →
      world.kernel.file fd = .closed := by
    intro fd member
    exact (admitted_accept (admitted_opening admitted) member).2
  rw [passed.calls, Kernel.along_append]
  constructor
  · rcases passed.opened.calls with ⟨_, same⟩ | ⟨_, fd, same⟩ | ⟨fd, _, same⟩
    · rw [same]
      trivial
    · rw [same]
      exact ⟨announced_accept, announced_close, trivial⟩
    · rw [same]
      exact ⟨announced_accept, trivial⟩
  · apply Kernel.along_mono _ (sweep_along (fun fd entry => orderly_serve _ _ _ _ fd entry)
      passed.nodup _ fun _ _ => rfl)
    rintro now action ⟨fd, member, entry, event, inTurn, rfl, file⟩ _ _ ⟨⟩ _
    have notServer : fd ≠ world.server.serverFd := by
      have watches := passed.opened.represents.watches
      rw [passed.opened.listener] at watches
      exact watches_ne_server watches ((passed.members fd).mp member)
    have reported := reported_serve sendCode round entry event inTurn
    obtain ⟨id, owner⟩ := tabled_owner tabled serving (reported_member tabled notServer reported)
    refine ⟨reported, id, owner, ?_⟩
    rw [file, ← owner]
    exact opening_file passed.opened.calls unused (by rw [owner]; exact fun closed => by cases closed)

/-- `tcp_select_server_v2` at every call of `select`, and in every pass that follows one. -/
theorem table_consistent {world : World} (reached : Reachable system world) :
    Consistent world.server ∧
      ∀ round, world.kernel.Admits (serveRound round world.server).2 →
        world.kernel.Along (Announced world round) (serveRound round world.server).2 := by
  obtain ⟨roster, tabled⟩ := reachable_tabled reached
  constructor
  · exact tabled_consistent tabled
  · exact fun round admitted => round_announced tabled (reachable_serving reached) admitted

theorem table_consistent_first_line :
    let world := (⟨boot 3, Kernel.boot 3⟩ : World).run (oneByteBack.take 1)
    let round := oneByteBack.get ⟨1, by decide⟩
    Reachable system world ∧ Consistent world.server ∧
      world.kernel.Along (Announced world round) (serveRound round world.server).2 := by
  have reached := World.reachable_run (.start ⟨3, by decide, rfl⟩) (oneByteBack.take 1)
    (by decide +kernel)
  obtain ⟨consistent, announced⟩ := table_consistent reached
  exact ⟨reached, consistent, announced _ (by decide +kernel)⟩

end LinuxSystemPrograms.SelectServerV2Table
