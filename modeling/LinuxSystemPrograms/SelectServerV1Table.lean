import LinuxSystemPrograms.SelectRoster
import LinuxSystemPrograms.SelectServerV1

/-!
# The connection table of the first select server

`client[fd]` is the roster at `fd`. The loop goes through the descriptors in order, so what
it does from `i` on is said descriptor by descriptor (`Scanned`): every one from `i` on has
its turn, and the one that `accept` returns is added. Which of them come before
`server_fd` does not matter.
-/

namespace LinuxSystemPrograms.SelectServerV1Table

open LinuxSystemPrograms.ConnectionAccount
open LinuxSystemPrograms.EchoBuffers
open LinuxSystemPrograms.EchoClient
open LinuxSystemPrograms.SelectRoster
open LinuxSystemPrograms.SelectServerV1
open LinuxSystemPrograms.SelectServerV2 (FdSet Round fdClr fdSet fdZero recvCode handleRecv fd_clr_set)
open LinuxSystemPrograms.Sockets

set_option autoImplicit false

def fdOf (slot : Index) : Fd := Int.ofNat slot.val

theorem index_fd_of (slot : Index) : index (fdOf slot) = some slot :=
  dif_pos ⟨slot.isLt, Int.natCast_nonneg slot.val⟩

theorem fd_of_ne (slot : Index) : fdOf slot ≠ -1 := fd_ne_of_valid (Int.natCast_nonneg slot.val)

theorem fd_of_injective {slot other : Index} (same : fdOf slot = fdOf other) : slot = other :=
  Fin.ext (Int.ofNat.inj same)

/-- `client[fd]` holds the connection with descriptor `fd`, or nothing. -/
structure Holds (client : Index → Client) (roster : Roster) : Prop where
  entry : ∀ slot, (client slot).clientFd = fdOf slot ∧
      roster (fdOf slot) = some (contents (client slot)) ∨
    (client slot).clientFd = -1 ∧ roster (fdOf slot) = none ∧
      contents (client slot) = Buffers.empty
  owned : ∀ fd, (roster fd).isSome = true → ∃ slot, fd = fdOf slot

structure Represents (server : Server) (roster : Roster) : Prop where
  holds : Holds server.client roster
  watches : Watches server.serverFd server.maxFds server.masterRead server.masterWrite roster

theorem holds_update {client : Index → Client} {roster : Roster} (holds : Holds client roster)
    {slot : Index} {after : Client} {entry : Option Buffers}
    (same : after.clientFd = fdOf slot ∧ entry = some (contents after) ∨
      after.clientFd = -1 ∧ entry = none ∧ contents after = Buffers.empty) :
    Holds (Function.update client slot after) (Function.update roster (fdOf slot) entry) where
  entry other := by
    by_cases isSlot : other = slot
    · rw [isSlot, Function.update_self, Function.update_self]
      exact same
    · have different : fdOf other ≠ fdOf slot := fun fds => isSlot (fd_of_injective fds)
      rw [Function.update_of_ne isSlot, Function.update_of_ne different]
      exact holds.entry other
  owned fd isSome := by
    by_cases isFd : fd = fdOf slot
    · exact ⟨slot, isFd⟩
    · rw [Function.update_of_ne isFd] at isSome
      exact holds.owned fd isSome

theorem holds_busy {client : Index → Client} {roster : Roster} (holds : Holds client roster)
    {slot : Index} (isSome : (roster (fdOf slot)).isSome = true) :
    (client slot).clientFd = fdOf slot ∧ roster (fdOf slot) = some (contents (client slot)) := by
  rcases holds.entry slot with busy | ⟨_, none, _⟩
  · exact busy
  · rw [none] at isSome
    exact Bool.noConfusion isSome

/-! ## The loop body at one descriptor -/

/-- What the loop body leaves behind when it does `served` to the connection with `fd`. -/
structure Refines (server : Server) (fd : Fd) (roster : Roster) (served : Served)
    (after : Server) (actions : List (Action Return)) : Prop where
  represents : Represents after (Function.update roster fd served.1)
  calls : actions = served.2.map (.io fd)
  sets : after.readfds = server.readfds ∧ after.writefds = server.writefds
  bounds : after.serverFd = server.serverFd ∧ after.maxFds = server.maxFds

section Stages

variable {server : Server} {roster : Roster} {slot : Index}

def dropped (server : Server) (slot : Index) (after : Client) : Server :=
  { server with
    client := Function.update server.client slot after.reset
    masterRead := fdClr server.masterRead (fdOf slot)
    masterWrite := fdClr server.masterWrite (fdOf slot) }

theorem refines_dropped (represents : Represents server roster)
    (isSome : (roster (fdOf slot)).isSome = true) (after : Client) (events : List Event) :
    Refines server (fdOf slot) roster (none, events) (dropped server slot after)
      (events.map (.io (fdOf slot))) where
  represents :=
    { holds := holds_update represents.holds (Or.inr ⟨rfl, rfl, reset_contents after⟩)
      watches := watches_closed represents.watches isSome }
  calls := rfl
  sets := ⟨rfl, rfl⟩
  bounds := ⟨rfl, rfl⟩

theorem refines_kept (represents : Represents server roster)
    (isSome : (roster (fdOf slot)).isSome = true) {after : Client}
    (sameFd : after.clientFd = fdOf slot) {writeAfter : FdSet}
    (writeOthers : ∀ other, other ≠ fdOf slot → writeAfter other = server.masterWrite other)
    (writeSame : writeAfter (fdOf slot) = pending (contents after)) (events : List Event) :
    Refines server (fdOf slot) roster (some (contents after), events)
      { server with client := Function.update server.client slot after, masterWrite := writeAfter }
      (events.map (.io (fdOf slot))) where
  represents :=
    { holds := holds_update represents.holds (Or.inl ⟨sameFd, rfl⟩)
      watches := watches_kept represents.watches isSome writeOthers writeSame }
  calls := rfl
  sets := ⟨rfl, rfl⟩
  bounds := ⟨rfl, rfl⟩

theorem refines_untouched (represents : Represents server roster) {fd : Fd}
    {entry : Option Buffers} (same : roster fd = entry) :
    Refines server fd roster (entry, []) server [] where
  represents := by
    rw [← same, Function.update_eq_self]
    exact represents
  calls := rfl
  sets := ⟨rfl, rfl⟩
  bounds := ⟨rfl, rfl⟩

theorem read_stage_failed {round : Round} (sameFd : (server.client slot).clientFd = fdOf slot)
    (failed : recvCode ((server.client slot).view.receive
      (recv recvBufSize (round.recv (fdOf slot)))).2 = -1) :
    readStage round server slot (fdOf slot) =
      (dropped server slot ((server.client slot).receive (round.recv (fdOf slot))).1,
        (recvEvents recvCode (server.client slot).view
          (recv recvBufSize (round.recv (fdOf slot))) ++ [ConnEvent.close]).map (.io (fdOf slot)),
        false) := by
  obtain ⟨_, fdEq, codeEq, eventsEq⟩ := recv_handler_spec recvCode (server.client slot)
    (round.recv (fdOf slot))
  simp only [readStage, sameFd, handleRecv, codeEq, eventsEq, failed, if_true, closeIndex, fdEq,
    Function.update_self, Function.update_idem, dropped, List.map_append, List.map_cons,
    List.map_nil, Prod.mk.injEq, Server.mk.injEq, and_true, true_and]
  refine ⟨rfl, ?_⟩
  split_ifs
  · exact fd_clr_set _ _
  · rfl

theorem read_stage_kept {round : Round} (sameFd : (server.client slot).clientFd = fdOf slot)
    (success : recvCode ((server.client slot).view.receive
      (recv recvBufSize (round.recv (fdOf slot)))).2 ≠ -1) :
    readStage round server slot (fdOf slot) =
      ({ server with
          client := Function.update server.client slot
            ((server.client slot).receive (round.recv (fdOf slot))).1
          masterWrite :=
            if ((server.client slot).view.receive
              (recv recvBufSize (round.recv (fdOf slot)))).1.queued ≠ []
            then fdSet server.masterWrite (fdOf slot) else server.masterWrite },
        (recvEvents recvCode (server.client slot).view
          (recv recvBufSize (round.recv (fdOf slot)))).map (.io (fdOf slot)), true) := by
  obtain ⟨viewEq, fdEq, codeEq, eventsEq⟩ := recv_handler_spec recvCode (server.client slot)
    (round.recv (fdOf slot))
  rw [← congrArg LineEcho.queued viewEq]
  simp only [readStage, sameFd, handleRecv, codeEq, eventsEq, success, if_false, fdEq]
  simp only [← Client.queued_ne_nil]
  rfl

theorem write_stage_failed {round : Round} (sameFd : (server.client slot).clientFd = fdOf slot)
    (ready : server.writefds (fdOf slot) = true)
    (failed : sendCode ((server.client slot).view.flush
      (send (server.client slot).queued.length (round.send (fdOf slot)))).2 = -1) :
    writeStage round server slot (fdOf slot) =
      (dropped server slot ((server.client slot).flush (round.send (fdOf slot))).1,
        (sendEvents sendCode (server.client slot).view
          (send (server.client slot).queued.length (round.send (fdOf slot))) ++
            [ConnEvent.close]).map (.io (fdOf slot))) := by
  obtain ⟨_, fdEq, codeEq, eventsEq⟩ := send_handler_spec sendCode (server.client slot)
    (round.send (fdOf slot))
  simp only [writeStage, ready, sameFd, handleSend, codeEq, eventsEq, failed, if_true, closeIndex,
    Function.update_self, Function.update_idem, dropped, List.map_append, List.map_cons,
    List.map_nil]
  rfl

theorem write_stage_kept {round : Round} (sameFd : (server.client slot).clientFd = fdOf slot)
    (ready : server.writefds (fdOf slot) = true)
    (success : sendCode ((server.client slot).view.flush
      (send (server.client slot).queued.length (round.send (fdOf slot)))).2 ≠ -1) :
    writeStage round server slot (fdOf slot) =
      ({ server with
          client := Function.update server.client slot
            ((server.client slot).flush (round.send (fdOf slot))).1
          masterWrite :=
            if ((server.client slot).view.flush
              (send (server.client slot).queued.length (round.send (fdOf slot)))).1.queued = []
            then fdClr server.masterWrite (fdOf slot) else server.masterWrite },
        (sendEvents sendCode (server.client slot).view
          (send (server.client slot).queued.length (round.send (fdOf slot)))).map
            (.io (fdOf slot))) := by
  obtain ⟨viewEq, fdEq, codeEq, eventsEq⟩ := send_handler_spec sendCode (server.client slot)
    (round.send (fdOf slot))
  rw [← congrArg LineEcho.queued viewEq]
  simp only [writeStage, ready, sameFd, handleSend, codeEq, eventsEq, success, if_true, if_false]
  simp only [← Client.queued_eq_nil]
  rfl

theorem read_stage_refines (represents : Represents server roster)
    (isSome : (roster (fdOf slot)).isSome = true) {round : Round} {served : Served}
    (servedEq : serveRead true (round.recv (fdOf slot)) (contents (server.client slot)) = served) :
    Refines server (fdOf slot) roster served (readStage round server slot (fdOf slot)).1
        (readStage round server slot (fdOf slot)).2.1 ∧
      (readStage round server slot (fdOf slot)).2.2 = served.1.isSome := by
  obtain ⟨sameFd, entry⟩ := holds_busy represents.holds isSome
  by_cases failed : recvCode ((server.client slot).view.receive
      (recv recvBufSize (round.recv (fdOf slot)))).2 = -1
  · rw [read_stage_failed sameFd failed, ← servedEq, read_conn_failed failed]
    exact ⟨refines_dropped represents isSome _ _, rfl⟩
  · rw [read_stage_kept sameFd failed, ← servedEq, read_conn_kept failed]
    have fdEq := (Client.receive_view (server.client slot) (round.recv (fdOf slot))).2.2
    constructor
    · apply refines_kept represents isSome (fdEq.trans sameFd)
      · intro other different
        exact write_bit_others _ different
      · exact write_bit_receive (watches_write_bit represents.watches entry)
    · rfl

theorem write_stage_refines (represents : Represents server roster)
    (isSome : (roster (fdOf slot)).isSome = true) {round : Round} {served : Served}
    (servedEq : serveWrite sendCode (server.writefds (fdOf slot)) (round.send (fdOf slot))
      (contents (server.client slot)) = served) :
    Refines server (fdOf slot) roster served (writeStage round server slot (fdOf slot)).1
      (writeStage round server slot (fdOf slot)).2 := by
  obtain ⟨sameFd, entry⟩ := holds_busy represents.holds isSome
  cases ready : server.writefds (fdOf slot) with
  | false =>
      have skipped : writeStage round server slot (fdOf slot) = (server, []) := by
        simp [writeStage, ready]
      rw [skipped, ← servedEq, ready]
      exact refines_untouched represents entry
  | true =>
      rw [ready] at servedEq
      by_cases failed : sendCode ((server.client slot).view.flush
          (send (server.client slot).queued.length (round.send (fdOf slot)))).2 = -1
      · rw [write_stage_failed sameFd ready failed, ← servedEq, write_conn_failed failed]
        exact refines_dropped represents isSome _ _
      · rw [write_stage_kept sameFd ready failed, ← servedEq, write_conn_kept failed]
        have fdEq := (Client.flush_view (server.client slot) (round.send (fdOf slot))).2.2
        apply refines_kept represents isSome (fdEq.trans sameFd)
        · intro other different
          exact write_bit_others _ different
        · exact write_bit_flush (watches_write_bit represents.watches entry)

theorem refines_append {middle : Option Buffers} {events : List Event} {read written : Server}
    {readActions writeActions : List (Action Return)} {served : Served}
    (reading : Refines server (fdOf slot) roster (middle, events) read readActions)
    (writing : Refines read (fdOf slot) (Function.update roster (fdOf slot) middle) served written
      writeActions) :
    Refines server (fdOf slot) roster (served.1, events ++ served.2) written
      (readActions ++ writeActions) := by
  constructor
  · have represents := writing.represents
    rwa [Function.update_idem] at represents
  · rw [reading.calls, writing.calls, List.map_append]
  · exact ⟨writing.sets.1.trans reading.sets.1, writing.sets.2.trans reading.sets.2⟩
  · exact ⟨writing.bounds.1.trans reading.bounds.1, writing.bounds.2.trans reading.bounds.2⟩

theorem serve_index_refines (represents : Represents server roster)
    (isSome : (roster (fdOf slot)).isSome = true) (round : Round) :
    Refines server (fdOf slot) roster
      (serve sendCode round server.readfds server.writefds (fdOf slot) (roster (fdOf slot)))
      (serveIndex round server slot (fdOf slot)).1
      (serveIndex round server slot (fdOf slot)).2 := by
  obtain ⟨sameFd, entry⟩ := holds_busy represents.holds isSome
  rw [entry, serveIndex]
  cases ready : server.readfds (fdOf slot) with
  | false =>
      have untouched : serveRead (server.readfds (fdOf slot)) (round.recv (fdOf slot))
          (contents (server.client slot)) = (some (contents (server.client slot)), []) := by
        rw [ready]
        rfl
      rw [serve_open untouched]
      exact write_stage_refines represents isSome rfl
  | true =>
      cases servedEq : serveRead (server.readfds (fdOf slot)) (round.recv (fdOf slot))
          (contents (server.client slot)) with
      | mk left events =>
          have reads := servedEq
          rw [ready] at reads
          obtain ⟨reading, goOn⟩ := read_stage_refines represents isSome reads
          cases left with
          | none =>
              rw [serve_closed servedEq]
              simp only [goOn, Option.isSome_none, Bool.false_eq_true, if_false, if_true]
              exact reading
          | some middle =>
              have present : (Function.update roster (fdOf slot) (some middle)
                  (fdOf slot)).isSome = true := by
                rw [Function.update_self]
                rfl
              have left := (holds_busy reading.represents.holds present).2
              rw [Function.update_self, Option.some.injEq] at left
              rw [serve_open servedEq]
              simp only [goOn, Option.isSome_some, if_true]
              apply refines_append reading
              apply write_stage_refines reading.represents present
              rw [reading.sets.2, ← left]

end Stages

/-! ## The loop -/

/-- What the loop may rely on at `i`: a descriptor that is reported and has not had its turn
is a connection, and `accept` returns one that is not in use. -/
structure Ready (round : Round) (server : Server) (roster : Roster) (i : Fd) : Prop where
  represents : Represents server roster
  reported : ∀ fd, i ≤ fd → fd ≠ server.serverFd →
    server.readfds fd = true ∨ server.writefds fd = true → (roster fd).isSome = true
  listener : server.writefds server.serverFd = false
  accept : i ≤ server.serverFd → server.readfds server.serverFd = true →
    ∀ fd, round.accept = .ok fd → 0 ≤ fd ∧ fd < maxConnections ∧ fd ≠ server.serverFd ∧
      roster fd = none ∧ server.readfds fd = false ∧ server.writefds fd = false

/-- What the loop does from `i` on, descriptor by descriptor. -/
structure Scanned (round : Round) (server : Server) (roster : Roster) (i : Fd)
    (accepted : Option Fd) (after : Server) (actions : List (Action Return)) : Prop where
  represents : Represents after fun fd =>
    if accepted = some fd then some Buffers.empty
    else if i ≤ fd then
      (serve sendCode round server.readfds server.writefds fd (roster fd)).1
    else roster fd
  calls : ∀ fd, callsOn fd actions =
    if i ≤ fd then (serve sendCode round server.readfds server.writefds fd (roster fd)).2 else []
  accepts : accepts actions = accepted.toList
  bounds : after.serverFd = server.serverFd ∧
    after.maxFds = accepted.elim server.maxFds (max server.maxFds)

theorem next_le_iff {i fd : Int} (different : fd ≠ i) : i + 1 ≤ fd ↔ i ≤ fd := by
  omega

theorem le_of_next_le {i fd : Int} (later : i + 1 ≤ fd) : i ≤ fd := by
  omega

theorem not_next_le (i : Int) : ¬i + 1 ≤ i := by
  omega

section Loop

variable {round : Round} {server : Server} {roster : Roster} {i : Fd}

/-- The turn of every descriptor but a reported `server_fd`. -/
theorem visit_turn (ready : Ready round server roster i)
    (notAccepting : ¬(server.readfds i = true ∧ i = server.serverFd)) :
    ∃ visited actions, visit round server i = some (visited, actions) ∧
      Refines server i roster
        (serve sendCode round server.readfds server.writefds i (roster i)) visited actions := by
  rw [visit, if_neg notAccepting]
  cases reported : server.readfds i || server.writefds i with
  | false =>
      obtain ⟨noRead, noWrite⟩ := Bool.or_eq_false_iff.mp reported
      rw [if_neg (by decide), serve_unready noRead noWrite]
      exact ⟨server, [], rfl, refines_untouched ready.represents rfl⟩
  | true =>
      have notServer : i ≠ server.serverFd := by
        intro same
        rcases Bool.or_eq_true_iff.mp reported with read | write
        · exact notAccepting ⟨read, same⟩
        · rw [same, ready.listener] at write
          exact Bool.noConfusion write
      have isSome := ready.reported i (le_refl i) notServer (Bool.or_eq_true_iff.mp reported)
      obtain ⟨slot, same⟩ := ready.represents.holds.owned i isSome
      subst same
      rw [if_pos rfl, index_fd_of]
      exact ⟨_, _, rfl, serve_index_refines ready.represents isSome round⟩

theorem ready_after_turn (ready : Ready round server roster i) {visited : Server}
    {actions : List (Action Return)}
    (refines : Refines server i roster
      (serve sendCode round server.readfds server.writefds i (roster i)) visited actions) :
    Ready round visited (Function.update roster i
      (serve sendCode round server.readfds server.writefds i (roster i)).1) (i + 1) where
  represents := refines.represents
  reported fd later notServer reported := by
    rw [refines.bounds.1] at notServer
    rw [refines.sets.1, refines.sets.2] at reported
    have different : fd ≠ i := by
      rintro rfl
      exact not_next_le fd later
    rw [Function.update_of_ne different]
    exact ready.reported fd (le_of_next_le later) notServer reported
  listener := by
    rw [refines.sets.2, refines.bounds.1]
    exact ready.listener
  accept later listening fd result := by
    rw [refines.bounds.1] at later listening ⊢
    rw [refines.sets.1] at listening ⊢
    rw [refines.sets.2]
    obtain ⟨valid, small, notServer, unused, unread, unwritten⟩ :=
      ready.accept (le_of_next_le later) listening fd result
    refine ⟨valid, small, notServer, ?_, unread, unwritten⟩
    by_cases same : fd = i
    · rw [same, Function.update_self, ← same, unused]
      rfl
    · rw [Function.update_of_ne same, unused]

theorem scanned_after_turn {visited after : Server} {actions later : List (Action Return)}
    {accepted : Option Fd}
    (refines : Refines server i roster
      (serve sendCode round server.readfds server.writefds i (roster i)) visited actions)
    (scanned : Scanned round visited (Function.update roster i
      (serve sendCode round server.readfds server.writefds i (roster i)).1) (i + 1) accepted after
      later) :
    Scanned round server roster i accepted after (actions ++ later) where
  represents := by
    have represents := scanned.represents
    rw [refines.sets.1, refines.sets.2] at represents
    convert represents using 2 with fd
    by_cases same : fd = i
    · rw [same, Function.update_self, if_pos (le_refl i), if_neg (not_next_le i)]
    · rw [Function.update_of_ne same]
      simp only [next_le_iff same]
  calls fd := by
    have calls := scanned.calls fd
    rw [refines.sets.1, refines.sets.2] at calls
    rw [calls_on_append, calls, refines.calls]
    by_cases same : fd = i
    · rw [same, calls_on_same, if_pos (le_refl i), if_neg (not_next_le i), List.append_nil]
    · rw [calls_on_other (Ne.symm same), Function.update_of_ne same]
      simp only [next_le_iff same, List.nil_append]
  accepts := by
    rw [accepts_append, refines.calls, accepts_io, scanned.accepts, List.nil_append]
  bounds := by
    rw [← refines.bounds.1, ← refines.bounds.2]
    exact scanned.bounds

/-- What the loop leaves behind when it comes to a reported `server_fd`. -/
structure Accepted (server : Server) (roster : Roster) (accepted : Option Fd) (visited : Server)
    (actions : List (Action Return)) : Prop where
  represents : Represents visited (withAccepted roster accepted)
  calls : actions = accepted.toList.map .accept
  sets : visited.readfds = server.readfds ∧ visited.writefds = server.writefds
  bounds : visited.serverFd = server.serverFd ∧
    visited.maxFds = accepted.elim server.maxFds (max server.maxFds)
  fresh : ∀ fd, accepted = some fd →
    roster fd = none ∧ server.readfds fd = false ∧ server.writefds fd = false

/-- Resetting `used` alone is enough: a free record is empty already. -/
theorem contents_reused {client : Client} (free : contents client = Buffers.empty) (fd : Fd) :
    contents { client with clientFd := fd, used := 0, usedBound := Nat.zero_le _ } =
      Buffers.empty := by
  obtain ⟨used, _, _, _, _⟩ := cursors_of_contents (free.trans init_contents.symm)
  have noPart : ({ client with clientFd := fd, used := 0, usedBound := Nat.zero_le _ } :
      Client).part = client.part := by
    have partBefore : client.part = [] :=
      List.eq_nil_of_length_eq_zero ((Client.part_length client).trans used)
    rw [partBefore]
    exact List.eq_nil_of_length_eq_zero (Client.part_length _)
  have same : contents { client with clientFd := fd, used := 0, usedBound := Nat.zero_le _ } =
      contents client := by
    rw [contents, contents, Client.view, noPart]
    rfl
  exact same.trans free

theorem accept_turn (ready : Ready round server roster server.serverFd)
    (reported : server.readfds server.serverFd = true) :
    ∃ visited actions, acceptClient round server = some (visited, actions) ∧
      Accepted server roster round.accept.toOption visited actions := by
  cases result : round.accept with
  | error reason =>
      refine ⟨server, [], accept_error result, ?_⟩
      exact ⟨ready.represents, rfl, ⟨rfl, rfl⟩, ⟨rfl, rfl⟩, fun _ absent => by cases absent⟩
  | ok fd =>
      obtain ⟨valid, small, notServer, unused, unread, unwritten⟩ :=
        ready.accept (le_refl _) reported fd result
      have found : ∃ slot, fd = fdOf slot := by
        refine ⟨⟨fd.toNat, ?_⟩, (Int.toNat_of_nonneg valid).symm⟩
        exact (Int.toNat_lt valid).mpr small
      obtain ⟨slot, rfl⟩ := found
      refine ⟨opened server slot (fdOf slot), [.accept (fdOf slot)], ?_, ?_⟩
      · rw [accept_opened result (not_le.mpr small), index_fd_of]
        rfl
      · have free : contents (server.client slot) = Buffers.empty := by
          rcases ready.represents.holds.entry slot with ⟨_, busy⟩ | ⟨_, _, free⟩
          · rw [unused] at busy
            cases busy
          · exact free
        constructor
        · constructor
          · apply holds_update ready.represents.holds
            exact Or.inl ⟨rfl, congrArg some (contents_reused free _).symm⟩
          · exact watches_opened ready.represents.watches notServer unused
        · rfl
        · exact ⟨rfl, rfl⟩
        · exact ⟨rfl, rfl⟩
        · intro other same
          cases same
          exact ⟨unused, unread, unwritten⟩

theorem ready_after_accept (ready : Ready round server roster server.serverFd) {visited : Server}
    {accepted : Option Fd} {actions : List (Action Return)}
    (opening : Accepted server roster accepted visited actions) :
    Ready round visited (withAccepted roster accepted) (server.serverFd + 1) where
  represents := opening.represents
  reported fd later notServer reported := by
    rw [opening.bounds.1] at notServer
    rw [opening.sets.1, opening.sets.2] at reported
    have isSome := ready.reported fd (le_of_next_le later) notServer reported
    cases accepted with
    | none => exact isSome
    | some other =>
        by_cases same : fd = other
        · rw [same, withAccepted, Function.update_self]
          rfl
        · rwa [withAccepted, Function.update_of_ne same]
  listener := by
    rw [opening.sets.2, opening.bounds.1]
    exact ready.listener
  accept later := by
    rw [opening.bounds.1] at later
    exact absurd later (not_next_le _)

theorem scanned_after_accept (ready : Ready round server roster server.serverFd)
    {visited after : Server} {accepted : Option Fd} {actions later : List (Action Return)}
    (opening : Accepted server roster accepted visited actions)
    (scanned : Scanned round visited (withAccepted roster accepted) (server.serverFd + 1) none after
      later) :
    Scanned round server roster server.serverFd accepted after (actions ++ later) := by
  have listenerFree : withAccepted roster accepted server.serverFd = none := by
    rw [← opening.bounds.1]
    exact opening.represents.watches.listener
  have listenerNot : accepted ≠ some server.serverFd := by
    intro same
    rw [with_accepted_apply, if_pos same] at listenerFree
    cases listenerFree
  -- The accepted descriptor was not in the sets that `select` was given.
  have acceptedTurn : ∀ fd, accepted = some fd →
      serve sendCode round server.readfds server.writefds fd (withAccepted roster accepted fd) =
        (some Buffers.empty, []) ∧ roster fd = none := by
    intro fd same
    obtain ⟨unused, unread, unwritten⟩ := opening.fresh fd same
    rw [with_accepted_apply, if_pos same, serve_unready unread unwritten]
    exact ⟨rfl, unused⟩
  constructor
  · have represents := scanned.represents
    rw [opening.sets.1, opening.sets.2] at represents
    convert represents using 2 with fd
    rw [if_neg (Option.some_ne_none fd).symm]
    by_cases same : accepted = some fd
    · rw [if_pos same, (acceptedTurn fd same).1, with_accepted_apply, if_pos same, ite_self]
    · rw [if_neg same, with_accepted_apply, if_neg same]
      by_cases atServer : fd = server.serverFd
      · rw [atServer, if_pos (le_refl _), if_neg (not_next_le _),
          ready.represents.watches.listener, serve_none]
      · simp only [next_le_iff atServer]
  · intro fd
    have calls := scanned.calls fd
    rw [opening.sets.1, opening.sets.2] at calls
    rw [calls_on_append, calls, opening.calls, calls_on_accept, List.nil_append]
    by_cases same : accepted = some fd
    · rw [(acceptedTurn fd same).1, (acceptedTurn fd same).2, serve_none, ite_self, ite_self]
    · rw [with_accepted_apply, if_neg same]
      by_cases atServer : fd = server.serverFd
      · rw [atServer, if_pos (le_refl _), if_neg (not_next_le _),
          ready.represents.watches.listener, serve_none]
      · simp only [next_le_iff atServer]
  · rw [accepts_append, opening.calls, accepts_accept, scanned.accepts, Option.toList_none,
      List.append_nil]
  · rw [scanned.bounds.1, scanned.bounds.2]
    exact opening.bounds

end Loop

/-- What `accept` is asked for from `i` on. -/
def takenFrom (round : Round) (server : Server) (i : Fd) : Option Fd :=
  taken round (decide (i ≤ server.serverFd) && server.readfds server.serverFd)

/-- A descriptor behind the end of the loop has nothing to do. -/
theorem scanned_end {round : Round} {server : Server} {roster : Roster} {i : Fd}
    (represents : Represents server roster) (stop : ¬i ≤ server.maxFds) :
    Scanned round server roster i none server [] := by
  have nothing : ∀ fd, i ≤ fd → roster fd = none := by
    intro fd behind
    by_contra present
    have isSome := Option.isSome_iff_ne_none.mpr present
    exact stop (le_trans behind (represents.watches.bound.2 fd isSome))
  constructor
  · convert represents using 1
    funext fd
    rw [if_neg (Option.some_ne_none fd).symm]
    by_cases behind : i ≤ fd
    · rw [if_pos behind, nothing fd behind, serve_none]
    · rw [if_neg behind]
  · intro fd
    by_cases behind : i ≤ fd
    · rw [if_pos behind, nothing fd behind, serve_none]
      rfl
    · rw [if_neg behind]
      rfl
  · rfl
  · exact ⟨rfl, rfl⟩

/-- One iteration: the loop goes on from a state of the same kind, and what it does from there
is the rest of what it does from here. -/
theorem visit_ready {round : Round} {server : Server} {roster : Roster} {i : Fd}
    (ready : Ready round server roster i) :
    ∃ visited actions rosterAfter, visit round server i = some (visited, actions) ∧
      Ready round visited rosterAfter (i + 1) ∧
      ∀ after later,
        Scanned round visited rosterAfter (i + 1) (takenFrom round visited (i + 1)) after later →
          Scanned round server roster i (takenFrom round server i) after (actions ++ later) := by
  by_cases accepting : server.readfds i = true ∧ i = server.serverFd
  · obtain ⟨reported, rfl⟩ := accepting
    obtain ⟨visited, actions, result, opening⟩ := accept_turn ready reported
    refine ⟨visited, actions, _, ?_, ready_after_accept ready opening, ?_⟩
    · rw [visit, if_pos ⟨reported, rfl⟩, result]
    · intro after later scanned
      have once : takenFrom round visited (server.serverFd + 1) = none := by
        rw [takenFrom, opening.bounds.1, decide_eq_false (not_next_le _)]
        rfl
      have now : takenFrom round server server.serverFd = round.accept.toOption := by
        rw [takenFrom, reported, decide_eq_true (le_refl _)]
        rfl
      rw [once] at scanned
      rw [now]
      exact scanned_after_accept ready opening scanned
  · obtain ⟨visited, actions, result, refines⟩ := visit_turn ready accepting
    refine ⟨visited, actions, _, result, ready_after_turn ready refines, ?_⟩
    intro after later scanned
    have same : takenFrom round visited (i + 1) = takenFrom round server i := by
      rw [takenFrom, takenFrom, refines.bounds.1, refines.sets.1]
      by_cases atServer : server.serverFd = i
      · have unreported : server.readfds i = false := by
          rw [Bool.eq_false_iff]
          exact fun reported => accepting ⟨reported, atServer.symm⟩
        rw [atServer, unreported, Bool.and_false, Bool.and_false]
      · rw [decide_eq_decide.mpr (next_le_iff atServer)]
    rw [same] at scanned
    exact scanned_after_turn refines scanned

theorem scan_scanned (round : Round) (i : Fd) (server : Server) :
    ∀ roster, Ready round server roster i →
      ∃ after actions, scan round i server = some (after, actions) ∧
        Scanned round server roster i (takenFrom round server i) after actions := by
  induction i, server using scan.induct round with
  | case1 i server more failed =>
      intro roster ready
      obtain ⟨visited, actions, _, result, _⟩ := visit_ready ready
      rw [failed] at result
      cases result
  | case2 i server more visited actions result ih =>
      intro roster ready
      obtain ⟨next, nextActions, rosterAfter, nextResult, readyAfter, compose⟩ := visit_ready ready
      rw [result] at nextResult
      cases nextResult
      obtain ⟨after, later, scannedResult, scanned⟩ := ih rosterAfter readyAfter
      refine ⟨after, actions ++ later, ?_, compose after later scanned⟩
      rw [scan, dif_pos more]
      split
      · simp_all
      · simp_all
  | case3 i server stop =>
      intro roster ready
      have notTaken : takenFrom round server i = none := by
        have behind : ¬i ≤ server.serverFd := fun before =>
          stop (le_trans before ready.represents.watches.bound.1)
        rw [takenFrom, decide_eq_false behind]
        rfl
      refine ⟨server, [], ?_, ?_⟩
      · rw [scan, dif_neg stop]
      · rw [notTaken]
        exact scanned_end ready.represents stop

/-! ## One pass -/

theorem represents_reload {server : Server} {roster : Roster}
    (represents : Represents server roster) : Represents (reload server) roster :=
  ⟨represents.holds, represents.watches⟩

structure Passed (round : Round) (server : Server) (roster : Roster) (accepted : Option Fd)
    (after : Server) (actions : List (Action Return)) : Prop where
  represents : Represents after (passRoster sendCode round (select round server).readfds
    (select round server).writefds accepted roster)
  calls : ∀ fd, callsOn fd actions = (serve sendCode round (select round server).readfds
    (select round server).writefds fd (roster fd)).2
  accepts : accepts actions = accepted.toList
  sets : after.readfds = after.masterRead ∧ after.writefds = after.masterWrite
  bounds : after.serverFd = server.serverFd ∧
    after.maxFds = accepted.elim server.maxFds (max server.maxFds)

theorem select_ready {round : Round} {server : Server} {roster : Roster}
    (represents : Represents server roster)
    (sets : server.readfds = server.masterRead ∧ server.writefds = server.masterWrite)
    (fair : (select round server).readfds server.serverFd = true →
      ∀ fd, round.accept = .ok fd → 0 ≤ fd ∧ fd < maxConnections ∧ fd ≠ server.serverFd ∧
        roster fd = none) :
    Ready round (select round server) roster 0 := by
  have read : ∀ fd, (select round server).readfds fd = true → server.masterRead fd = true := by
    intro fd ready
    simp only [select, Bool.and_eq_true] at ready
    rw [← sets.1]
    exact ready.1.1
  have write : ∀ fd, (select round server).writefds fd = true → server.masterWrite fd = true := by
    intro fd ready
    simp only [select, Bool.and_eq_true] at ready
    rw [← sets.2]
    exact ready.1.1
  have writing : ∀ fd, server.masterWrite fd = true → (roster fd).isSome = true := by
    intro fd written
    rw [represents.watches.write, Option.any_eq_true] at written
    obtain ⟨buffers, entry, _⟩ := written
    rw [entry]
    rfl
  constructor
  · exact ⟨represents.holds, represents.watches⟩
  · intro fd _ notServer ready
    rcases ready with ready | ready
    · have watched := read fd ready
      rw [represents.watches.read, Bool.or_eq_true, decide_eq_true_iff] at watched
      exact watched.resolve_left notServer
    · exact writing fd (write fd ready)
  · rw [Bool.eq_false_iff]
    intro ready
    exact watches_ne_server represents.watches (writing _ (write _ ready)) rfl
  · intro _ reported fd result
    obtain ⟨valid, small, notServer, unused⟩ := fair reported fd result
    refine ⟨valid, small, notServer, unused, ?_, ?_⟩
    · rw [Bool.eq_false_iff]
      intro ready
      have watched := read fd ready
      rw [represents.watches.read, decide_eq_false notServer, unused] at watched
      cases watched
    · rw [Bool.eq_false_iff]
      intro ready
      have present := writing fd (write fd ready)
      rw [unused] at present
      cases present

theorem serve_round_passed {round : Round} {server : Server} {roster : Roster}
    (represents : Represents server roster)
    (sets : server.readfds = server.masterRead ∧ server.writefds = server.masterWrite)
    (valid : 0 ≤ server.serverFd)
    (fair : (select round server).readfds server.serverFd = true →
      ∀ fd, round.accept = .ok fd → 0 ≤ fd ∧ fd < maxConnections ∧ fd ≠ server.serverFd ∧
        roster fd = none) :
    ∃ after actions, serveRound round server = some (after, actions) ∧
      Passed round server roster (taken round ((select round server).readfds server.serverFd))
        after actions := by
  obtain ⟨scannedServer, actions, result, scanned⟩ := scan_scanned round 0 (select round server)
    roster (select_ready represents sets fair)
  have taking : takenFrom round (select round server) 0 =
      taken round ((select round server).readfds server.serverFd) := by
    have always : decide (0 ≤ (select round server).serverFd) = true := decide_eq_true valid
    rw [takenFrom, always, Bool.true_and]
    rfl
  rw [taking] at scanned
  have negative : ∀ fd, ¬0 ≤ fd → roster fd = none := by
    intro fd below
    by_contra present
    obtain ⟨slot, same⟩ := represents.holds.owned fd (Option.isSome_iff_ne_none.mpr present)
    rw [same] at below
    exact below (Int.natCast_nonneg slot.val)
  refine ⟨reload scannedServer, actions, ?_, ?_⟩
  · rw [serveRound, result]
    rfl
  · constructor
    · apply represents_reload
      convert scanned.represents using 1
      funext fd
      rw [passRoster]
      by_cases below : 0 ≤ fd
      · rw [if_pos below]
      · rw [if_neg below, negative fd below, serve_none]
    · intro fd
      rw [scanned.calls]
      by_cases below : 0 ≤ fd
      · rw [if_pos below]
      · rw [if_neg below, negative fd below, serve_none]
    · exact scanned.accepts
    · exact ⟨rfl, rfl⟩
    · exact scanned.bounds

end LinuxSystemPrograms.SelectServerV1Table
