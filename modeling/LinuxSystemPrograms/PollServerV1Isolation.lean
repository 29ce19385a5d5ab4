import LinuxSystemPrograms.PollServerV1Table

/-!
# Whose bytes the poll server sends

`accept` does not clear the record it takes, and `remove_conn` clears the one behind the
record it gives up. What keeps connections apart is that a connection is closed as soon as
something has been received on it, so that nothing is sent at all; `cleanReuse` is where the
bytes that such a connection leaves behind meet a new one.
-/

namespace LinuxSystemPrograms.PollServerV1Isolation

open LinuxSystemPrograms.CheckedArray
open LinuxSystemPrograms.ConnectionAccount
open LinuxSystemPrograms.EchoClient
open LinuxSystemPrograms.Framing
open LinuxSystemPrograms.PollServerV1
open LinuxSystemPrograms.PollServerV1Table
open LinuxSystemPrograms.Sockets
open LinuxSystemPrograms.Transition

set_option autoImplicit false

/-- Nothing unparsed and nothing unsent. -/
def Clean (record : Client) : Prop := record.used = 0 ∧ record.sendLen = record.sendOffset

instance (record : Client) : Decidable (Clean record) := inferInstanceAs (Decidable (_ ∧ _))

theorem clean_of_view {record : Client} (empty : record.view = .empty) : Clean record := by
  have part : record.part = [] := congrArg LineEcho.part empty
  have queued : record.queued = [] := congrArg LineEcho.queued empty
  exact ⟨by rw [← Client.part_length, part, List.length_nil], Client.queued_eq_nil.mp queued⟩

theorem view_of_clean {record : Client} (reset : record.view.Reset) (clean : Clean record) :
    record.view = .empty := by
  have part : record.part = [] := by
    rw [← List.length_eq_zero_iff, Client.part_length, clean.1]
  have queued : record.queued = [] := Client.queued_eq_nil.mpr clean.2
  have filled : record.sendLen = 0 := reset queued
  rw [Client.view, part, queued, filled, LineEcho.empty]

/-- Every byte sent on a connection was received on it, and a connection on which nothing has
happened has nothing to parse or to send. -/
structure Isolated (world : World) : Prop where
  echoes : ∀ id, (sent (world.kernel.log id)).Sublist (received (world.kernel.log id))
  fresh : ∀ k id, Seated world.server k →
    world.kernel.file (world.server.entry k).fd = .conn id →
    received (world.kernel.log id) = [] → sent (world.kernel.log id) = [] →
    Clean (world.server.record k)

/-- `accept` returns no descriptor that an entry with something left in its record still
holds, and a hang-up removes an entry only while the last record has nothing left in it. -/
def cleanReuse (world : World) : Label → Prop
  | .body answers => ∀ i ∈ world.cursor,
      (Accepts i world.server → ∀ fd ∈ answers.accept.toOption,
        ∀ k, 1 ≤ k → k < world.server.activeConns → (world.server.entry k).fd = fd →
          Clean (world.server.record k)) ∧
      (¬ Accepts i world.server → (world.server.entry i).revents.down = true →
        ¬ ((world.server.entry i).revents.pollin = true ∧
          Fits (world.server.record i) (recv recvBufSize answers.recv)) →
        2 ≤ world.server.activeConns →
        Clean (world.server.record (world.server.activeConns - 1)))
  | _ => True

instance (world : World) : (label : Label) → Decidable (cleanReuse world label)
  | .poll _ => isTrue trivial
  | .pollFailed => isTrue trivial
  | .body _ => inferInstanceAs (Decidable (∀ i ∈ world.cursor, _))

/-! ## The handlers on an empty record -/

theorem fits_of_empty {record : Client} (empty : record.view = .empty) (ready : RecvResult)
    {chunk : List Byte} (result : recv recvBufSize ready = .ok chunk) :
    Fits record (recv recvBufSize ready) := by
  have part : record.part = [] := congrArg LineEcho.part empty
  have filled : record.sendLen = 0 := congrArg LineEcho.filled empty
  have bounded := recv_ok_length result
  have isPrefix := complete_prefix newline chunk
  have shorter := isPrefix.length_le
  rw [result]
  simp only [Fits, ← Client.part_length, part, filled, List.length_nil, List.nil_append]
  unfold recvBufSize at bounded
  unfold messageSize sendBufSize
  omega

theorem read_echo_empty {answers : Answers} {revents : Events} {record : Client}
    (empty : record.view = .empty) (notTaken : ¬ Taken answers revents record.view) :
    readEcho answers revents record.view = .empty := by
  unfold readEcho
  split_ifs with readable
  · cases result : recv recvBufSize answers.recv with
    | error reason => cases reason <;> simp [LineEcho.receive, empty]
    | ok chunk =>
        have fits := fits_of_empty empty answers.recv result
        exact absurd (taken_iff.mpr ⟨readable, fits⟩) notTaken
  · exact empty

theorem write_echo_empty (answers : Answers) (revents : Events) :
    writeEcho answers revents .empty = .empty := by
  unfold writeEcho
  split_ifs
  · rw [LineEcho.flush_idle rfl]
  · rfl

theorem sent_read_events (answers : Answers) (revents : Events) (echo : LineEcho) :
    sent (readEvents answers revents echo) = [] := by
  unfold readEvents
  split_ifs
  · exact sent_recv_events _ _ _
  · rfl

theorem sent_write_events_empty (answers : Answers) (revents : Events) :
    sent (writeEvents answers revents .empty) = [] := by
  unfold writeEvents
  split_ifs
  · simp [sendEvents, LineEcho.empty, ConnEvent.sentBytes]
  · rfl

theorem read_echo_reset {answers : Answers} {revents : Events} {echo : LineEcho}
    (reset : echo.Reset) : (readEcho answers revents echo).Reset := by
  unfold readEcho
  split_ifs
  · exact receive_reset reset _
  · exact reset

theorem write_echo_reset {answers : Answers} {revents : Events} {echo : LineEcho}
    (reset : echo.Reset) : (writeEcho answers revents echo).Reset := by
  unfold writeEcho
  split_ifs
  · exact flush_reset reset _
  · exact reset

/-! ## The invariant -/

/-- No open connection has anything in its record, and nothing was ever sent. -/
structure Silent (server : Server) (kernel : Kernel Return) : Prop where
  unsent : ∀ id, sent (kernel.log id) = []
  opened : ∀ k id, Seated server k → kernel.file (server.entry k).fd = .conn id →
    (server.record k).view = .empty
  spare : ∀ k, 1 ≤ k → server.activeConns ≤ k → (server.record k).view = .empty
  reset : ∀ k, (server.record k).view.Reset

theorem boot_silent (serverFd : Fd) (stack : Int → Events) :
    Silent (boot serverFd stack).server (boot serverFd stack).kernel where
  unsent _ := rfl
  opened k _ seated := absurd seated (boot_not_seated serverFd stack k)
  spare _ _ _ := Client.init_view
  reset _ := by
    rw [show (boot serverFd stack).server.record _ = Client.init from rfl, Client.init_view]
    exact fun _ => rfl

theorem silent_accepted {server : Server} {kernel : Kernel Return} (silent : Silent server kernel)
    (started : 1 ≤ server.activeConns) {clientFd : Fd}
    (reused : ∀ k, Seated server k → (server.entry k).fd = clientFd → Clean (server.record k)) :
    Silent (withAccepted clientFd server) (kernel.openConn clientFd) := by
  have view : ∀ k, ((withAccepted clientFd server).record k).view = (server.record k).view := by
    intro k
    by_cases new : k = server.activeConns
    · subst new
      rw [accepted_record_new]
      rfl
    · rw [accepted_record_old clientFd server new]
  constructor
  case unsent => exact silent.unsent
  case opened =>
    intro k id seated owner
    rw [view]
    rcases seated_accepted seated with rfl | ⟨old, different⟩
    · exact silent.spare _ started (Int.le_refl _)
    · rw [accepted_entry_old clientFd server different] at owner
      by_cases same : (server.entry k).fd = clientFd
      · exact view_of_clean (silent.reset k) (reused k old same)
      · rw [Kernel.open_file_other kernel same] at owner
        exact silent.opened k id old owner
  case spare =>
    intro k from1 behind
    rw [accepted_active] at behind
    rw [view]
    exact silent.spare k from1 (by omega)
  case reset =>
    intro k
    rw [view]
    exact silent.reset k

/-- The record of entry `i` after the handlers, and every other record. -/
theorem served_record {i k : Int} {before tables : Tables} {echo : LineEcho}
    (served : Served i before tables echo) :
    (tables.client.cell (k - 1)).view =
      if k = i then echo else (before.client.cell (k - 1)).view := by
  split_ifs with own
  · rw [own, served.view]
  · rw [served.kept.record (k - 1) (by omega)]

theorem silent_kept {i : Int} {server : Server} {kernel now : Kernel Return} {tables : Tables}
    {echo : LineEcho} (silent : Silent server kernel) (served : Served i server.tables tables echo)
    (file : now.file = kernel.file) (unsent : ∀ id, sent (now.log id) = [])
    (inTable : i < server.activeConns) (reset : echo.Reset)
    (empty : (server.record i).view = .empty → echo = .empty) :
    Silent { server with tables := tables } now where
  unsent := unsent
  opened k id seated owner := by
    have before : kernel.file (server.entry k).fd = .conn id := by
      rw [← served.kept.fd, ← file]
      exact owner
    have view := silent.opened k id seated before
    rw [Server.record, served_record served]
    split_ifs with own
    · subst own
      exact empty view
    · exact view
  spare k from1 behind := by
    have different : k ≠ i := (lt_of_lt_of_le inTable behind).ne'
    rw [Server.record, served_record served, if_neg different]
    exact silent.spare k from1 behind
  reset k := by
    rw [Server.record, served_record served]
    split_ifs
    · exact reset
    · exact silent.reset k

/-- `remove_conn` leaves the connections that stay open as they are, and clears the record
behind the ones it leaves in use. -/
theorem silent_removed {i : Int} {server after : Server} {kernel now : Kernel Return}
    {tables : Tables} {echo : LineEcho} (silent : Silent server kernel)
    (inner : 1 ≤ i ∨ server.activeConns = 1) (inTable : i < server.activeConns) (served : Served i server.tables tables echo)
    (closed : Closed (server.entry i).fd kernel now) (unsent : ∀ id, sent (now.log id) = [])
    (reset : echo.Reset) (afterTables : after.tables = removed i tables server.activeConns)
    (length : after.activeConns = server.activeConns ∨
      after.activeConns = server.activeConns - 1 ∧ (2 ≤ server.activeConns →
        (tables.client.cell (server.activeConns - 2)).view = .empty)) : Silent after now := by
  have record : ∀ k, k ≠ server.activeConns → after.record k =
      tables.client.cell (origin i server.activeConns k - 1) := by
    intro k listed
    rw [Server.record, afterTables, removed_record i tables listed]
  have cleared : (after.record server.activeConns).view = .empty := by
    rw [Server.record, afterTables, removed_cleared, Client.reset_view]
  constructor
  case unsent => exact unsent
  case opened =>
    intro k id seated owner
    obtain ⟨from1, listed⟩ := seated
    have inside : k < server.activeConns := by omega
    have inner : 1 ≤ i := by omega
    rw [Server.entry, afterTables, removed_fd served inside.ne] at owner
    obtain ⟨different, before⟩ := closed.named owner
    have notRemoved : origin i server.activeConns k ≠ i := by
      intro same
      rw [same] at different
      exact different rfl
    rw [record k inside.ne, served_record served, if_neg notRemoved]
    exact silent.opened _ id (origin_range inner inTable from1 inside) before
  case spare =>
    intro k from1 behind
    by_cases last : k = server.activeConns
    · rw [last]
      exact cleared
    · rw [record k last]
      by_cases vacated : k < server.activeConns
      · have given : origin i server.activeConns k - 1 = server.activeConns - 2 := by
          unfold origin
          split_ifs
          · omega
          · omega
        rw [given]
        exact (length.resolve_left (by omega)).2 (by omega)
      · have fixed : origin i server.activeConns k = k := if_neg (by omega)
        rw [fixed, served_record served, if_neg (by omega)]
        exact silent.spare k from1 (by omega)
  case reset =>
    intro k
    by_cases last : k = server.activeConns
    · rw [last, cleared]
      exact fun _ => rfl
    · rw [record k last, served_record served]
      split_ifs
      · exact reset
      · exact silent.reset _

theorem sent_handler_events {answers : Answers} {i : Int} {server : Server}
    (empty : (server.record i).view = .empty)
    (notTaken : ¬ Taken answers (server.entry i).revents (server.record i).view) :
    sent (handlerEvents answers i server) = [] := by
  rw [handlerEvents, sent_append, sent_read_events, read_echo_empty empty notTaken,
    sent_write_events_empty]
  rfl

/-- The handlers send nothing on an open connection. -/
theorem unsent_handlers {answers : Answers} {i : Int} {server : Server} {kernel : Kernel Return}
    {tables : Tables} (laid : Laid server kernel) (silent : Silent server kernel)
    (inTable : i < server.activeConns)
    (reaches : Reaches i ((server.entry i).revents.pollin || (server.entry i).revents.pollout)
      server.tables tables)
    (notTaken : ¬ Taken answers (server.entry i).revents (server.record i).view) (id : Nat) :
    sent (if kernel.file (server.record i).clientFd = .conn id
      then handlerEvents answers i server else []) = [] := by
  split_ifs with owner
  · rcases reaches with inner | ⟨idle, _⟩
    · have seated : Seated server i := ⟨inner, inTable⟩
      rw [laid.paired i seated] at owner
      exact sent_handler_events (silent.opened i id seated owner) notTaken
    · rw [Bool.or_eq_false_iff] at idle
      simp [handlerEvents, readEvents, writeEvents, idle.1, idle.2]
  · rfl

theorem silent_handled {answers : Answers} {revents : Events} {record : Client}
    (notTaken : ¬ Taken answers revents record.view) (empty : record.view = .empty) :
    writeEcho answers revents (readEcho answers revents record.view) = .empty := by
  rw [read_echo_empty empty notTaken, write_echo_empty]

theorem reachable_silent {world : World}
    (reached : Reachable (guarded system cleanReuse) world) :
    Silent world.server world.kernel := by
  apply reachable_good _ _ _ reached
  · exact boot_silent
  · intro world report laid silent honest
    constructor
    case unsent => exact silent.unsent
    case opened =>
      intro k id seated owner
      rw [show (world.afterPoll report).server = polled report world.server from rfl,
        polled_fd] at owner
      exact silent.opened k id seated owner
    case spare => exact silent.spare
    case reset => exact silent.reset
  · intro world answers i passed laid silent allowed honest atI from0 inTable pass
    obtain ⟨reused, vacated⟩ := allowed i atI
    have sentClose : ∀ id, sent (if world.kernel.file (world.server.entry i).fd = .conn id
        then [ConnEvent.close] else ([] : List Event)) = [] := by
      intro id
      split_ifs
      · rfl
      · rfl
    cases pass with
    | refused => exact silent
    | @accepted clientFd accepts granted room =>
        apply silent_accepted silent (by omega)
        intro k seated same
        exact reused accepts clientFd (by rw [granted]; rfl) k seated.1 seated.2 same
    | removed serves inner taken removable served =>
        have noClose := read_events_no_close answers (world.server.entry i).revents
          (world.server.record i).view
        apply silent_removed silent (Or.inl inner) inTable served (exec_closed _ _ _ noClose)
        · intro id
          rw [exec_closing_log _ _ _ noClose, sent_append, sent_append, silent.unsent, sentClose]
          split_ifs
          · rw [sent_read_events]
            rfl
          · rfl
        · exact read_echo_reset (silent.reset i)
        · rfl
        · exact Or.inl rfl
    | @hungUp tables serves reaches notTaken down removable served =>
        have noClose := handler_events_no_close answers i world.server
        apply silent_removed silent removable.2 inTable served (exec_closed _ _ _ noClose)
        · intro id
          rw [exec_closing_log _ _ _ noClose, sent_append, sent_append, silent.unsent, sentClose,
            unsent_handlers laid silent inTable reaches notTaken]
          rfl
        · exact write_echo_reset (read_echo_reset (silent.reset i))
        · rfl
        · refine Or.inr ⟨rfl, ?_⟩
          intro several
          have last : world.server.activeConns - 2 = world.server.activeConns - 1 - 1 := by omega
          have clean := vacated serves down (fun taken => notTaken (taken_iff.mpr taken)) several
          have empty := view_of_clean (silent.reset _) clean
          rw [last, served_record served]
          split_ifs with own
          · rw [own] at empty
            exact silent_handled notTaken empty
          · exact empty
    | kept serves reaches notTaken up served =>
        apply silent_kept silent served
        · exact Kernel.exec_io_file _ _ (handler_events_no_close answers i world.server)
        · intro id
          simp only [World.afterBody, handlerActions]
          rw [Kernel.exec_io_log _ _ (handler_events_no_close answers i world.server),
            sent_append, silent.unsent, unsent_handlers laid silent inTable reaches notTaken]
          rfl
        · exact inTable
        · exact write_echo_reset (read_echo_reset (silent.reset i))
        · exact silent_handled notTaken

/-- As long as no new connection meets what an earlier one has left, connections are kept
apart. -/
theorem connections_kept_apart {world : World}
    (reached : Reachable (guarded system cleanReuse) world) : Isolated world := by
  have silent := reachable_silent reached
  constructor
  case echoes =>
    intro id
    rw [silent.unsent id]
    exact List.nil_sublist _
  case fresh =>
    intro k id seated owner _ _
    exact clean_of_view (silent.opened k id seated owner)

theorem connections_kept_apart_moved :
    ∃ world, Reachable (guarded system cleanReuse) world ∧
      received (world.kernel.log 0) = [97, newline] ∧ world.server.activeConns = 3 ∧
      world.kernel.file 6 = .conn 1 ∧ Isolated world := by
  -- descriptor 5 leaves a line behind, and its number is not used again
  obtain ⟨world, reached, taken, active, owner⟩ := exists_reachable_of_run
    (guarded_next_sound cleanReuse next_sound) ⟨3, fun _ => .zero, by decide, rfl⟩
    (connect ++ arrive (.ok [97, newline]) ++
      [report 0 .read, .body { quiet with accept := .ok 6 }, .body quiet, .body quiet])
    (fun world => received (world.kernel.log 0) = [97, newline] ∧
      world.server.activeConns = 3 ∧ world.kernel.file 6 = .conn 1)
    (by decide +kernel)
  exact ⟨world, reached, taken, active, owner, connections_kept_apart reached⟩

/-- The line that descriptor 5 leaves behind is sent to the next connection with its number. -/
def leak : List Label :=
  connect ++ arrive (.ok [97, newline]) ++
    [report 0 .read, .body { quiet with accept := .ok 5 }, .body quiet, .body quiet,
      report 1 ⟨false, true, false, false⟩, .body quiet, .body { quiet with send := .ok 2 }]

theorem line_sent_to_stranger : ¬ ∀ world, Reachable system world → Isolated world := by
  intro always
  obtain ⟨world, reached, out, nothing⟩ := exists_reachable_of_run next_sound
    ⟨3, fun _ => .zero, by decide, rfl⟩ leak
    (fun world => sent (world.kernel.log 1) = [97, newline] ∧ received (world.kernel.log 1) = [])
    (by decide +kernel)
  have echoes := (always world reached).echoes 1
  rw [out, nothing] at echoes
  cases echoes

end LinuxSystemPrograms.PollServerV1Isolation
