import LinuxSystemPrograms.PollServerV1

/-!
# What one pass of the poll server's loop does

Each function of the source has a lemma that says what it returns and where it leaves an
array. `Pass` puts them together: everything that a pass of the `for` loop can do. The
invariants of the next modules are proved from its cases.
-/

namespace LinuxSystemPrograms.PollServerV1

open LinuxSystemPrograms.CheckedArray
open LinuxSystemPrograms.ConnectionAccount
open LinuxSystemPrograms.EchoClient
open LinuxSystemPrograms.Framing
open LinuxSystemPrograms.Sockets

set_option autoImplicit false

/-- An entry of the table is inside `fds`, and beside an entry from 1 on there is a record. -/
theorem entry_inside {i activeConns : Int} (from0 : 0 ≤ i) (inTable : i < activeConns)
    (bounded : activeConns ≤ maxConnections + 1) : Inside (maxConnections + 1) i :=
  ⟨from0, lt_of_lt_of_le inTable bounded⟩

theorem record_inside {i activeConns : Int} (from1 : 1 ≤ i) (inTable : i < activeConns)
    (bounded : activeConns ≤ maxConnections + 1) : Inside maxConnections (i - 1) := by
  constructor <;> omega

/-- The cells behind the table, while there are any. -/
theorem slot_inside {activeConns : Int} (started : 1 ≤ activeConns)
    (room : activeConns ≤ maxConnections) :
    Inside (maxConnections + 1) activeConns ∧ Inside maxConnections (activeConns - 1) := by
  unfold Inside
  omega

/-- Only the record `client[i - 1]` and the events asked for in `fds[i]` may differ. -/
structure Kept (i : Int) (before after : Tables) : Prop where
  fd : ∀ k, (after.fds.cell k).fd = (before.fds.cell k).fd
  revents : ∀ k, (after.fds.cell k).revents = (before.fds.cell k).revents
  clientFd : ∀ k, (after.client.cell k).clientFd = (before.client.cell k).clientFd
  entry : ∀ k, k ≠ i → after.fds.cell k = before.fds.cell k
  record : ∀ k, k ≠ i - 1 → after.client.cell k = before.client.cell k

theorem Kept.refl (i : Int) (tables : Tables) : Kept i tables tables :=
  ⟨fun _ => rfl, fun _ => rfl, fun _ => rfl, fun _ _ => rfl, fun _ _ => rfl⟩

theorem Kept.trans {i : Int} {first second third : Tables} (earlier : Kept i first second)
    (later : Kept i second third) : Kept i first third where
  fd k := (later.fd k).trans (earlier.fd k)
  revents k := (later.revents k).trans (earlier.revents k)
  clientFd k := (later.clientFd k).trans (earlier.clientFd k)
  entry k different := (later.entry k different).trans (earlier.entry k different)
  record k different := (later.record k different).trans (earlier.record k different)

theorem arm_out_spec {fds after : CArray (maxConnections + 1) PollFd} {i : Int} {armed : Bool}
    (result : armOut fds i armed = some after) (k : Int) :
    (after.cell k).fd = (fds.cell k).fd ∧ (after.cell k).revents = (fds.cell k).revents ∧
      (k ≠ i → after.cell k = fds.cell k) := by
  simp only [armOut, Option.bind_eq_bind, Option.bind_eq_some_iff, CArray.get_eq_some,
    CArray.set_eq_some] at result
  obtain ⟨entry, ⟨_, rfl⟩, _, rfl⟩ := result
  by_cases same : k = i
  · subst same
    simp
  · rw [CArray.put_other _ same]
    exact ⟨rfl, rfl, fun _ => rfl⟩

/-- What both handlers write: the record, and the events of its entry if they are touched. -/
theorem kept_put {tables : Tables} {i : Int} {touched : Prop} [Decidable touched] {armed : Bool}
    {fds : CArray (maxConnections + 1) PollFd}
    (result : (if touched then armOut tables.fds i armed else some tables.fds) = some fds)
    {client : Client} (ownFd : client.clientFd = (tables.client.cell (i - 1)).clientFd) :
    Kept i tables ⟨fds, tables.client.put (i - 1) client⟩ := by
  have same : ∀ k, (fds.cell k).fd = (tables.fds.cell k).fd ∧
      (fds.cell k).revents = (tables.fds.cell k).revents ∧
      (k ≠ i → fds.cell k = tables.fds.cell k) := by
    intro k
    split_ifs at result
    · exact arm_out_spec result k
    · cases result
      exact ⟨rfl, rfl, fun _ => rfl⟩
  constructor
  case fd => exact fun k => (same k).1
  case revents => exact fun k => (same k).2.1
  case clientFd =>
    intro k
    rw [CArray.put_cell]
    split_ifs with own
    · rw [own, ownFd]
    · rfl
  case entry => exact fun k => (same k).2.2
  case record => exact fun k different => CArray.put_other _ different client

/-- `handle_recv` in terms of the abstract record. -/
theorem handle_recv_spec {tables after : Tables} {i : Int} {ready : RecvResult} {ret : Int}
    {actions : List (Action Return)}
    (result : handleRecv tables i ready = some (after, ret, actions)) :
    Inside maxConnections (i - 1) ∧ Kept i tables after ∧
      (after.client.cell (i - 1)).view =
        ((tables.client.cell (i - 1)).view.receive (recv recvBufSize ready)).1 ∧
      ret = recvCode ((tables.client.cell (i - 1)).view.receive (recv recvBufSize ready)).2 ∧
      actions = (recvEvents recvCode (tables.client.cell (i - 1)).view
        (recv recvBufSize ready)).map (.io (tables.client.cell (i - 1)).clientFd) := by
  simp only [handleRecv, Option.bind_eq_bind, Option.bind_eq_some_iff, CArray.get_eq_some,
    CArray.set_eq_some, Option.pure_def, Option.some.injEq, Prod.mk.injEq] at result
  obtain ⟨client, ⟨inside, rfl⟩, clients, ⟨_, rfl⟩, fds, armed, rfl, rfl, rfl⟩ := result
  obtain ⟨viewEq, fdEq, retEq, eventsEq⟩ :=
    recv_handler_spec recvCode (tables.client.cell (i - 1)) ready
  refine ⟨inside, kept_put armed fdEq, ?_, retEq, by rw [eventsEq]⟩
  rw [CArray.put_same, viewEq]

theorem handle_send_spec {tables after : Tables} {i : Int} {room : SendResult} {ret : Int}
    {actions : List (Action Return)}
    (result : handleSend tables i room = some (after, ret, actions)) :
    Inside maxConnections (i - 1) ∧ Kept i tables after ∧
      (after.client.cell (i - 1)).view = ((tables.client.cell (i - 1)).view.flush
        (send (tables.client.cell (i - 1)).view.queued.length room)).1 ∧
      actions = (sendEvents sendCode (tables.client.cell (i - 1)).view
        (send (tables.client.cell (i - 1)).view.queued.length room)).map
          (.io (tables.client.cell (i - 1)).clientFd) := by
  simp only [handleSend, Option.bind_eq_bind, Option.bind_eq_some_iff, CArray.get_eq_some,
    CArray.set_eq_some, Option.pure_def, Option.some.injEq, Prod.mk.injEq] at result
  obtain ⟨client, ⟨inside, rfl⟩, clients, ⟨_, rfl⟩, fds, armed, rfl, rfl, rfl⟩ := result
  obtain ⟨viewEq, fdEq, _, eventsEq⟩ :=
    send_handler_spec sendCode (tables.client.cell (i - 1)) room
  refine ⟨inside, kept_put armed fdEq, ?_, by rw [eventsEq]; rfl⟩
  rw [CArray.put_same, viewEq]
  rfl

theorem arm_out_eq (fds : CArray (maxConnections + 1) PollFd) {i : Int}
    (inFds : Inside (maxConnections + 1) i) (armed : Bool) :
    armOut fds i armed = some (fds.put i { fds.cell i with
      events := { (fds.cell i).events with pollout := armed } }) := by
  simp [armOut, CArray.get_inside _ inFds, CArray.set_inside _ inFds]

theorem handle_recv_defined (tables : Tables) {i : Int} (ready : RecvResult)
    (inClient : Inside maxConnections (i - 1)) (inFds : Inside (maxConnections + 1) i) :
    (handleRecv tables i ready).isSome = true := by
  simp only [handleRecv, CArray.get_inside _ inClient, CArray.set_inside _ inClient,
    Option.bind_eq_bind, Option.bind_some]
  split_ifs
  · simp [arm_out_eq tables.fds inFds]
  · simp

theorem handle_send_defined (tables : Tables) {i : Int} (room : SendResult)
    (inClient : Inside maxConnections (i - 1)) (inFds : Inside (maxConnections + 1) i) :
    (handleSend tables i room).isSome = true := by
  simp only [handleSend, CArray.get_inside _ inClient, CArray.set_inside _ inClient,
    Option.bind_eq_bind, Option.bind_some]
  split_ifs
  · simp [arm_out_eq tables.fds inFds]
  · simp

def removed (i : Int) (tables : Tables) (activeConns : Int) : Tables where
  fds := (tables.fds.put i (tables.fds.cell (activeConns - 1))).put activeConns
    { tables.fds.cell activeConns with fd := -1, events := .zero }
  client := (tables.client.put (i - 1) (tables.client.cell (activeConns - 2))).put
    (activeConns - 1) (tables.client.cell (activeConns - 1)).reset

/-- The removals that stay inside both arrays. -/
def Removable (i activeConns : Int) : Prop :=
  activeConns ≤ maxConnections ∧ (1 ≤ i ∨ activeConns = 1)

instance (i activeConns : Int) : Decidable (Removable i activeConns) :=
  inferInstanceAs (Decidable (_ ∧ _))

theorem move_last_eq {i : Int} {tables : Tables} {activeConns : Int} (from0 : 0 ≤ i)
    (inTable : i < activeConns) (bounded : activeConns ≤ maxConnections + 1) :
    (if i ≠ activeConns - 1 then moveLast i tables activeConns else some tables) =
      if 1 ≤ i ∨ activeConns = 1 then
        some ⟨tables.fds.put i (tables.fds.cell (activeConns - 1)),
          tables.client.put (i - 1) (tables.client.cell (activeConns - 2))⟩
      else none := by
  by_cases isLast : i = activeConns - 1
  · have same : i - 1 = activeConns - 2 := by omega
    have removable : 1 ≤ i ∨ activeConns = 1 := by omega
    rw [if_neg (not_not.mpr isLast), if_pos removable, isLast, ← same, isLast, CArray.put_self,
      CArray.put_self]
  · rw [if_pos isLast]
    have entry := entry_inside from0 inTable bounded
    have lastEntry : Inside (maxConnections + 1) (activeConns - 1) := by
      constructor <;> omega
    have lastRecord : Inside maxConnections (activeConns - 2) := by
      constructor <;> omega
    by_cases inner : 1 ≤ i
    · have record := record_inside inner inTable bounded
      rw [if_pos (Or.inl inner)]
      simp [moveLast, CArray.get_inside _ lastEntry, CArray.set_inside _ entry,
        CArray.get_inside _ lastRecord, CArray.set_inside _ record]
    · have outside : ¬ Inside maxConnections (i - 1) := by
        unfold Inside
        omega
      rw [if_neg (by omega)]
      simp [moveLast, CArray.get_inside _ lastEntry, CArray.set_inside _ entry,
        CArray.get_inside _ lastRecord, CArray.set_outside _ outside]

theorem remove_conn_eq {i : Int} {tables : Tables} {activeConns : Int} (from0 : 0 ≤ i)
    (inTable : i < activeConns) (bounded : activeConns ≤ maxConnections + 1) :
    removeConn i tables activeConns =
      if Removable i activeConns then
        some (removed i tables activeConns, activeConns - 1,
          [.io (tables.fds.cell i).fd .close])
      else none := by
  have entry := entry_inside from0 inTable bounded
  have notLast : i ≠ activeConns := by omega
  have notRecord : activeConns - 1 ≠ i - 1 := by omega
  unfold removeConn Removable
  rw [if_neg (by omega), CArray.get_inside _ entry, move_last_eq from0 inTable bounded]
  by_cases inner : 1 ≤ i ∨ activeConns = 1
  · by_cases room : activeConns ≤ maxConnections
    · obtain ⟨slot, record⟩ := slot_inside (by omega) room
      simp [inner, room, removed, CArray.get_inside _ slot, CArray.set_inside _ slot,
        CArray.get_inside _ record, CArray.set_inside _ record,
        CArray.put_other _ notLast.symm, CArray.put_other _ notRecord]
    · have outside : ¬ Inside (maxConnections + 1) activeConns := by
        unfold Inside
        omega
      simp [inner, room, CArray.get_outside _ outside]
  · simp [inner]

/-- The last entry is moved to the place of the removed one. -/
theorem removed_fds {i k : Int} (tables : Tables) {activeConns : Int} (listed : k ≠ activeConns) :
    (removed i tables activeConns).fds.cell k =
      if k = i then tables.fds.cell (activeConns - 1) else tables.fds.cell k := by
  simp only [removed, CArray.put_other _ listed, CArray.put_cell]

theorem removed_client {i k : Int} (tables : Tables) {activeConns : Int}
    (listed : k ≠ activeConns - 1) :
    (removed i tables activeConns).client.cell k =
      if k = i - 1 then tables.client.cell (activeConns - 2) else tables.client.cell k := by
  simp only [removed, CArray.put_other _ listed, CArray.put_cell]

theorem removed_cleared (i : Int) (tables : Tables) (activeConns : Int) :
    (removed i tables activeConns).client.cell (activeConns - 1) =
      (tables.client.cell (activeConns - 1)).reset :=
  CArray.put_same _ _ _

def withAccepted (clientFd : Fd) (server : Server) : Server :=
  { server with
    tables := ⟨server.tables.fds.put server.activeConns
        { server.tables.fds.cell server.activeConns with fd := clientFd, events := .read },
      server.tables.client.put (server.activeConns - 1)
        { server.tables.client.cell (server.activeConns - 1) with clientFd := clientFd }⟩
    activeConns := server.activeConns + 1 }

theorem accept_conn_eq {answers : Answers} {server : Server} {clientFd : Fd}
    (accepted : answers.accept = .ok clientFd) (started : 1 ≤ server.activeConns) :
    acceptConn answers server =
      if server.activeConns ≤ maxConnections then
        some ⟨withAccepted clientFd server, [.accept clientFd], false⟩
      else none := by
  simp only [acceptConn, accepted]
  by_cases room : server.activeConns ≤ maxConnections
  · obtain ⟨slot, record⟩ := slot_inside started room
    simp [room, withAccepted, CArray.get_inside _ slot, CArray.set_inside _ slot,
      CArray.get_inside _ record, CArray.set_inside _ record]
  · have outside : ¬ Inside maxConnections (server.activeConns - 1) := by
      unfold Inside
      omega
    simp [room, CArray.get_outside _ outside]

/-- What `recv` is asked for and what it leaves of the record, if it is called. -/
def readEcho (answers : Answers) (revents : Events) (echo : LineEcho) : LineEcho :=
  if revents.pollin then (echo.receive (recv recvBufSize answers.recv)).1 else echo

def readEvents (answers : Answers) (revents : Events) (echo : LineEcho) : List Event :=
  if revents.pollin then recvEvents recvCode echo (recv recvBufSize answers.recv) else []

def Taken (answers : Answers) (revents : Events) (echo : LineEcho) : Prop :=
  revents.pollin = true ∧ recvCode (echo.receive (recv recvBufSize answers.recv)).2 = 0

instance (answers : Answers) (revents : Events) (echo : LineEcho) :
    Decidable (Taken answers revents echo) :=
  inferInstanceAs (Decidable (_ ∧ _))

/-- `recv` returns 0, or bytes for which `recv_message` has room and whose complete lines
have room in `send_buf`. -/
def Fits (record : Client) : RecvResult → Prop
  | .ok chunk => chunk = [] ∨ record.used + chunk.length ≤ messageSize ∧
      record.sendLen + (complete newline (record.part ++ chunk)).length ≤ sendBufSize
  | .error _ => False

instance (record : Client) : (result : RecvResult) → Decidable (Fits record result)
  | .ok _ => inferInstanceAs (Decidable (_ ∨ _ ∧ _))
  | .error _ => isFalse id

theorem fits_iff (record : Client) (result : RecvResult) :
    Fits record result ↔ recvCode (record.view.receive result).2 = 0 := by
  cases result with
  | error reason => cases reason <;> simp [Fits, LineEcho.receive, recvCode]
  | ok chunk =>
      by_cases eof : chunk = []
      · simp [Fits, LineEcho.receive, recvCode, eof]
      · by_cases room : record.used + chunk.length ≤ messageSize
        · have bound := record.lenBound
          have moved := drain_finishes_iff newline (sendBufSize - record.sendLen)
            (record.part ++ chunk)
          have drained : recvCode (record.view.takeInExit chunk) = 0 ↔
              newline ∉ (record.view.takeIn chunk).part := by
            unfold LineEcho.takeInExit
            split_ifs with left
            · simp [left, recvCode]
            · simp [left, recvCode]
          have opened : record.view.receive (.ok chunk) =
              (record.view.takeIn chunk, record.view.takeInExit chunk) := by
            simp [LineEcho.receive, eof, Client.view, room]
          rw [opened, drained]
          simp only [Fits, eof, room, false_or, true_and]
          rw [← Nat.le_sub_iff_add_le' bound]
          exact moved.symm
        · simp [Fits, LineEcho.receive, recvCode, eof, room, Client.view]

theorem taken_iff {answers : Answers} {revents : Events} {record : Client} :
    Taken answers revents record.view ↔
      revents.pollin = true ∧ Fits record (recv recvBufSize answers.recv) := by
  rw [Taken, fits_iff]

def writeEcho (answers : Answers) (revents : Events) (echo : LineEcho) : LineEcho :=
  if revents.pollout then (echo.flush (send echo.queued.length answers.send)).1 else echo

def writeEvents (answers : Answers) (revents : Events) (echo : LineEcho) : List Event :=
  if revents.pollout then sendEvents sendCode echo (send echo.queued.length answers.send) else []

theorem read_events_no_close (answers : Answers) (revents : Events) (echo : LineEcho) :
    ConnEvent.close ∉ readEvents answers revents echo := by
  unfold readEvents
  split_ifs
  · exact recv_events_no_close _ _ _
  · exact List.not_mem_nil

theorem write_events_no_close (answers : Answers) (revents : Events) (echo : LineEcho) :
    ConnEvent.close ∉ writeEvents answers revents echo := by
  unfold writeEvents
  split_ifs
  · exact send_events_no_close _ _ _
  · exact List.not_mem_nil

/-- The handlers' part of the loop body: the record of entry `i` follows the abstract one. -/
structure Served (i : Int) (before after : Tables) (echo : LineEcho) : Prop where
  kept : Kept i before after
  view : (after.client.cell (i - 1)).view = echo

/-- A handler that is called for `i` finds a record there, and one that is not called leaves
the tables alone. -/
def Reaches (i : Int) (called : Bool) (before after : Tables) : Prop :=
  1 ≤ i ∨ called = false ∧ after = before

theorem read_stage_cases {answers : Answers} {i : Int} {revents : Events} {server : Server}
    {stage : Stage} (from0 : 0 ≤ i) (inTable : i < server.activeConns)
    (bounded : server.activeConns ≤ maxConnections + 1)
    (result : readStage answers i revents server = some stage) :
    ∃ tables, Reaches i revents.pollin server.tables tables ∧
      Served i server.tables tables
        (readEcho answers revents (server.tables.client.cell (i - 1)).view) ∧
      (Taken answers revents (server.tables.client.cell (i - 1)).view ∧
          Removable i server.activeConns ∧
          stage = ⟨{ server with tables := removed i tables server.activeConns },
            (readEvents answers revents (server.tables.client.cell (i - 1)).view).map
                (.io (server.tables.client.cell (i - 1)).clientFd) ++
              [.io (server.tables.fds.cell i).fd .close], false⟩ ∨
        ¬ Taken answers revents (server.tables.client.cell (i - 1)).view ∧
          stage = ⟨{ server with tables := tables },
            (readEvents answers revents (server.tables.client.cell (i - 1)).view).map
              (.io (server.tables.client.cell (i - 1)).clientFd), true⟩) := by
  unfold readStage at result
  cases readable : revents.pollin with
  | false =>
      simp only [readable, Bool.false_eq_true, if_false, Option.pure_def, Option.some.injEq]
        at result
      subst result
      refine ⟨server.tables, Or.inr ⟨rfl, rfl⟩, ⟨Kept.refl i _, ?_⟩, Or.inr ⟨?_, ?_⟩⟩
      · simp [readEcho, readable]
      · simp [Taken, readable]
      · simp [readEvents, readable]
  | true =>
      simp only [readable, if_true, Option.bind_eq_bind, Option.bind_eq_some_iff] at result
      obtain ⟨⟨tables, ret, actions⟩, handled, rest⟩ := result
      obtain ⟨inside, kept, view, rfl, rfl⟩ := handle_recv_spec handled
      have inner : 1 ≤ i := by
        have := inside.1
        omega
      refine ⟨tables, Or.inl inner, ⟨kept, ?_⟩, ?_⟩
      · rw [view, readEcho, if_pos readable]
      · simp only [readEvents, readable, if_true, Taken, true_and]
        split_ifs at rest with taken
        · rw [remove_conn_eq from0 inTable bounded] at rest
          split_ifs at rest with removable
          · refine Or.inl ⟨taken, removable, ?_⟩
            rw [← kept.fd i]
            simpa using rest.symm
          · simp at rest
        · refine Or.inr ⟨taken, ?_⟩
          simpa using rest.symm

theorem write_stage_cases {answers : Answers} {i : Int} {revents : Events} {server : Server}
    {stage : Stage} (result : writeStage answers i revents server = some stage) :
    ∃ tables, Reaches i revents.pollout server.tables tables ∧
      Served i server.tables tables
        (writeEcho answers revents (server.tables.client.cell (i - 1)).view) ∧
      stage = ⟨{ server with tables := tables },
        (writeEvents answers revents (server.tables.client.cell (i - 1)).view).map
          (.io (server.tables.client.cell (i - 1)).clientFd), true⟩ := by
  unfold writeStage at result
  cases writable : revents.pollout with
  | false =>
      simp only [writable, Bool.false_eq_true, if_false, Option.pure_def, Option.some.injEq]
        at result
      subst result
      refine ⟨server.tables, Or.inr ⟨rfl, rfl⟩, ⟨Kept.refl i _, ?_⟩, ?_⟩
      · simp [writeEcho, writable]
      · simp [writeEvents, writable]
  | true =>
      simp only [writable, if_true, Option.bind_eq_bind, Option.bind_eq_some_iff] at result
      obtain ⟨⟨tables, ret, actions⟩, handled, rest⟩ := result
      obtain ⟨inside, kept, view, rfl⟩ := handle_send_spec handled
      have inner : 1 ≤ i := by
        have := inside.1
        omega
      refine ⟨tables, Or.inl inner, ⟨kept, ?_⟩, ?_⟩
      · rw [view, writeEcho, if_pos writable]
      · rw [writeEvents, if_pos writable]
        simpa using rest.symm

theorem hang_stage_cases {i : Int} {revents : Events} {server : Server} {stage : Stage}
    (result : hangStage i revents server = some stage) (from0 : 0 ≤ i)
    (inTable : i < server.activeConns) (bounded : server.activeConns ≤ maxConnections + 1) :
    revents.down = true ∧ Removable i server.activeConns ∧
        stage = ⟨{ server with
            tables := removed i server.tables server.activeConns
            activeConns := server.activeConns - 1 },
          [.io (server.tables.fds.cell i).fd .close], false⟩ ∨
      revents.down = false ∧ stage = ⟨server, [], true⟩ := by
  unfold hangStage at result
  cases down : revents.down with
  | false =>
      simp only [down, Bool.false_eq_true, if_false, Option.pure_def, Option.some.injEq]
        at result
      exact Or.inr ⟨rfl, result.symm⟩
  | true =>
      simp only [down, if_true, remove_conn_eq from0 inTable bounded] at result
      split_ifs at result with removable
      · refine Or.inl ⟨rfl, removable, ?_⟩
        simpa using result.symm
      · simp at result

abbrev Server.entry (server : Server) (i : Int) : PollFd := server.tables.fds.cell i

abbrev Server.record (server : Server) (i : Int) : Client := server.tables.client.cell (i - 1)

@[simp] theorem accepted_active (clientFd : Fd) (server : Server) :
    (withAccepted clientFd server).activeConns = server.activeConns + 1 := rfl

/-- The new entry keeps the `revents` that stand in its cell. -/
@[simp] theorem accepted_entry_new (clientFd : Fd) (server : Server) :
    (withAccepted clientFd server).entry server.activeConns =
      { server.entry server.activeConns with fd := clientFd, events := .read } :=
  CArray.put_same _ _ _

theorem accepted_entry_old (clientFd : Fd) (server : Server) {k : Int}
    (different : k ≠ server.activeConns) :
    (withAccepted clientFd server).entry k = server.entry k :=
  CArray.put_other _ different _

/-- The new record keeps everything but the descriptor. -/
@[simp] theorem accepted_record_new (clientFd : Fd) (server : Server) :
    (withAccepted clientFd server).record server.activeConns =
      { server.record server.activeConns with clientFd := clientFd } :=
  CArray.put_same _ _ _

theorem accepted_record_old (clientFd : Fd) (server : Server) {k : Int}
    (different : k ≠ server.activeConns) :
    (withAccepted clientFd server).record k = server.record k :=
  CArray.put_other _ (by omega) _

def handlerEvents (answers : Answers) (i : Int) (server : Server) : List Event :=
  readEvents answers (server.entry i).revents (server.record i).view ++
    writeEvents answers (server.entry i).revents
      (readEcho answers (server.entry i).revents (server.record i).view)

theorem handler_events_no_close (answers : Answers) (i : Int) (server : Server) :
    ConnEvent.close ∉ handlerEvents answers i server := by
  rw [handlerEvents, List.mem_append, not_or]
  exact ⟨read_events_no_close _ _ _, write_events_no_close _ _ _⟩

def handlerActions (answers : Answers) (i : Int) (server : Server) : List (Action Return) :=
  (handlerEvents answers i server).map (.io (server.record i).clientFd)

/-- The entry is the listening socket, and `accept` is called on it. -/
def Accepts (i : Int) (server : Server) : Prop :=
  (server.entry i).fd = server.serverFd ∧ (server.entry i).revents.pollin = true

instance (i : Int) (server : Server) : Decidable (Accepts i server) :=
  inferInstanceAs (Decidable (_ ∧ _))

/-- What a pass of the `for` loop can do to a table it stays inside of. -/
inductive Pass (answers : Answers) (i : Int) (server : Server) : Passed → Prop where
  | refused {reason : Errno} (accepts : Accepts i server)
      (failed : answers.accept = .error reason) : Pass answers i server ⟨server, i + 1, []⟩
  | accepted {clientFd : Fd} (accepts : Accepts i server)
      (granted : answers.accept = .ok clientFd) (room : server.activeConns ≤ maxConnections) :
      Pass answers i server ⟨withAccepted clientFd server, i + 1, [.accept clientFd]⟩
  | removed {tables : Tables} (serves : ¬ Accepts i server) (inner : 1 ≤ i)
      (taken : Taken answers (server.entry i).revents (server.record i).view)
      (removable : Removable i server.activeConns)
      (served : Served i server.tables tables
        (readEcho answers (server.entry i).revents (server.record i).view)) :
      Pass answers i server
        ⟨{ server with tables := removed i tables server.activeConns }, i,
          (readEvents answers (server.entry i).revents (server.record i).view).map
              (.io (server.record i).clientFd) ++ [.io (server.entry i).fd .close]⟩
  | hungUp {tables : Tables} (serves : ¬ Accepts i server)
      (reaches : Reaches i ((server.entry i).revents.pollin || (server.entry i).revents.pollout)
        server.tables tables)
      (notTaken : ¬ Taken answers (server.entry i).revents (server.record i).view)
      (down : (server.entry i).revents.down = true)
      (removable : Removable i server.activeConns)
      (served : Served i server.tables tables
        (writeEcho answers (server.entry i).revents
          (readEcho answers (server.entry i).revents (server.record i).view))) :
      Pass answers i server
        ⟨{ server with
            tables := PollServerV1.removed i tables server.activeConns
            activeConns := server.activeConns - 1 }, i,
          handlerActions answers i server ++ [.io (server.entry i).fd .close]⟩
  | kept {tables : Tables} (serves : ¬ Accepts i server)
      (reaches : Reaches i ((server.entry i).revents.pollin || (server.entry i).revents.pollout)
        server.tables tables)
      (notTaken : ¬ Taken answers (server.entry i).revents (server.record i).view)
      (up : (server.entry i).revents.down = false)
      (served : Served i server.tables tables
        (writeEcho answers (server.entry i).revents
          (readEcho answers (server.entry i).revents (server.record i).view))) :
      Pass answers i server
        ⟨{ server with tables := tables }, i + 1, handlerActions answers i server⟩

theorem body_pass {answers : Answers} {i : Int} {server : Server} {passed : Passed}
    (from0 : 0 ≤ i) (inTable : i < server.activeConns)
    (bounded : server.activeConns ≤ maxConnections + 1)
    (result : body answers i server = some passed) : Pass answers i server passed := by
  simp only [body, Option.bind_eq_bind, Option.bind_eq_some_iff, CArray.get_eq_some] at result
  obtain ⟨entry, ⟨_, rfl⟩, result⟩ := result
  split_ifs at result with accepts
  · cases granted : answers.accept with
    | error reason =>
        simp only [acceptConn, granted, Option.bind_some, Option.pure_def, Option.some.injEq]
          at result
        subst result
        exact .refused accepts granted
    | ok clientFd =>
        rw [accept_conn_eq granted (by omega)] at result
        split_ifs at result with room
        · simp only [Option.bind_some, Option.pure_def, Option.some.injEq] at result
          subst result
          exact .accepted accepts granted room
        · simp at result
  · obtain ⟨read, readResult, result⟩ := Option.bind_eq_some_iff.mp result
    obtain ⟨tables, readReaches, served, readCases⟩ :=
      read_stage_cases from0 inTable bounded readResult
    rcases readCases with ⟨taken, removable, rfl⟩ | ⟨notTaken, rfl⟩
    · simp only [if_true, Option.pure_def, Option.some.injEq] at result
      subst result
      have inner : 1 ≤ i := by
        rcases readReaches with inner | ⟨notCalled, _⟩
        · exact inner
        · exact absurd taken.1 (by simp [notCalled])
      exact .removed accepts inner taken removable served
    · simp only [Bool.true_eq_false, if_false, Option.bind_eq_some_iff] at result
      obtain ⟨written, writeResult, done, hangResult, result⟩ := result
      obtain ⟨after, writeReaches, servedAfter, rfl⟩ := write_stage_cases writeResult
      rw [served.view, served.kept.clientFd] at result
      rw [served.view] at servedAfter
      have both : Served i server.tables after _ :=
        ⟨served.kept.trans servedAfter.kept, servedAfter.view⟩
      have reaches : Reaches i ((server.entry i).revents.pollin ||
          (server.entry i).revents.pollout) server.tables after := by
        rcases readReaches with inner | ⟨notRead, rfl⟩
        · exact Or.inl inner
        · rcases writeReaches with inner | ⟨notWritten, rfl⟩
          · exact Or.inl inner
          · exact Or.inr ⟨by simp [notRead, notWritten], rfl⟩
      have calls : (readEvents answers (server.entry i).revents (server.record i).view).map
          (.io (server.record i).clientFd) ++
          (writeEvents answers (server.entry i).revents
            (readEcho answers (server.entry i).revents (server.record i).view)).map
          (.io (server.record i).clientFd) = handlerActions answers i server :=
        List.map_append.symm
      rcases hang_stage_cases hangResult from0 inTable bounded with
        ⟨down, removable, rfl⟩ | ⟨up, rfl⟩
      · simp only [Bool.false_eq_true, if_false, Option.pure_def, Option.some.injEq, calls]
          at result
        subst result
        rw [both.kept.fd i]
        exact .hungUp accepts reaches notTaken down removable both
      · simp only [if_true, List.append_nil, Option.pure_def, Option.some.injEq, calls] at result
        subst result
        exact .kept accepts reaches notTaken up both

/-- The stages go out of range only where a handler is called for entry 0 or an entry is
removed that must not be. -/
theorem read_stage_defined {answers : Answers} {i : Int} {revents : Events} {server : Server}
    (from0 : 0 ≤ i) (inTable : i < server.activeConns)
    (bounded : server.activeConns ≤ maxConnections + 1)
    (inner : revents.pollin = true → 1 ≤ i)
    (removable : Taken answers revents (server.record i).view → Removable i server.activeConns) :
    (readStage answers i revents server).isSome = true := by
  unfold readStage
  cases readable : revents.pollin with
  | false => simp
  | true =>
      have from1 := inner readable
      have inClient := record_inside from1 inTable bounded
      have inFds := entry_inside (by omega) inTable bounded
      obtain ⟨⟨tables, ret, actions⟩, handled⟩ := Option.isSome_iff_exists.mp
        (handle_recv_defined server.tables answers.recv inClient inFds)
      obtain ⟨_, _, _, code, _⟩ := handle_recv_spec handled
      simp only [if_true, handled, Option.bind_eq_bind, Option.bind_some]
      split_ifs with zero
      · have allowed := removable ⟨readable, by rw [← code, zero]⟩
        simp [remove_conn_eq from0 inTable bounded, allowed]
      · simp

theorem write_stage_defined {answers : Answers} {i : Int} {revents : Events} {server : Server}
    (inTable : i < server.activeConns) (bounded : server.activeConns ≤ maxConnections + 1)
    (inner : revents.pollout = true → 1 ≤ i) :
    (writeStage answers i revents server).isSome = true := by
  unfold writeStage
  cases writable : revents.pollout with
  | false => simp
  | true =>
      have from1 := inner writable
      have inClient := record_inside from1 inTable bounded
      have inFds := entry_inside (by omega) inTable bounded
      obtain ⟨⟨tables, ret, actions⟩, handled⟩ := Option.isSome_iff_exists.mp
        (handle_send_defined server.tables answers.send inClient inFds)
      simp [handled]

theorem hang_stage_defined {i : Int} {revents : Events} {server : Server} (from0 : 0 ≤ i)
    (inTable : i < server.activeConns) (bounded : server.activeConns ≤ maxConnections + 1)
    (removable : revents.down = true → Removable i server.activeConns) :
    (hangStage i revents server).isSome = true := by
  unfold hangStage
  cases down : revents.down with
  | false => simp
  | true => simp [remove_conn_eq from0 inTable bounded, removable down]

/-- When a pass of the `for` loop stays inside both arrays. -/
theorem body_defined {answers : Answers} {i : Int} {server : Server} (from0 : 0 ≤ i)
    (inTable : i < server.activeConns) (bounded : server.activeConns ≤ maxConnections + 1)
    (room : Accepts i server → answers.accept.toOption.isSome = true →
      server.activeConns ≤ maxConnections)
    (inner : ¬ Accepts i server → ((server.entry i).revents.pollin = true ∨
      (server.entry i).revents.pollout = true) → 1 ≤ i)
    (removable : ¬ Accepts i server →
      (Taken answers (server.entry i).revents (server.record i).view ∨
        (server.entry i).revents.down = true) → Removable i server.activeConns) :
    (body answers i server).isSome = true := by
  have entry := entry_inside from0 inTable bounded
  simp only [body, CArray.get_inside _ entry, Option.bind_eq_bind, Option.bind_some]
  split_ifs with accepts
  · cases granted : answers.accept with
    | error reason => simp [acceptConn, granted]
    | ok clientFd =>
        have started : 1 ≤ server.activeConns := by omega
        have roomy := room accepts (by rw [granted]; rfl)
        simp [accept_conn_eq granted started, roomy]
  · obtain ⟨read, readResult⟩ := Option.isSome_iff_exists.mp
      (read_stage_defined from0 inTable bounded (fun called => inner accepts (Or.inl called))
        (fun taken => removable accepts (Or.inl taken)))
    rw [readResult, Option.bind_some]
    split_ifs with stops
    · rfl
    · have same : read.server.activeConns = server.activeConns := by
        obtain ⟨tables, _, _, ⟨_, _, rfl⟩ | ⟨_, rfl⟩⟩ :=
          read_stage_cases from0 inTable bounded readResult
        · rfl
        · rfl
      rw [← same] at inTable bounded
      have writes : (writeStage answers i (server.entry i).revents read.server).isSome = true :=
        write_stage_defined inTable bounded fun called => inner accepts (Or.inr called)
      obtain ⟨written, writeResult⟩ := Option.isSome_iff_exists.mp writes
      obtain ⟨tables, _, _, rfl⟩ := write_stage_cases writeResult
      have hangs : (hangStage i (server.entry i).revents
          { read.server with tables := tables }).isSome = true := by
        apply hang_stage_defined from0
        · exact inTable
        · exact bounded
        · intro down
          rw [same]
          exact removable accepts (Or.inr down)
      obtain ⟨done, hangResult⟩ := Option.isSome_iff_exists.mp hangs
      simp [writeResult, hangResult]

theorem pass_next {answers : Answers} {i : Int} {server : Server} {passed : Passed}
    (pass : Pass answers i server passed) : passed.next = i ∨ passed.next = i + 1 := by
  cases pass with
  | refused => exact Or.inr rfl
  | accepted => exact Or.inr rfl
  | removed => exact Or.inl rfl
  | hungUp => exact Or.inl rfl
  | kept => exact Or.inr rfl

end LinuxSystemPrograms.PollServerV1
