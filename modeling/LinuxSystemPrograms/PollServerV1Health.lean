import LinuxSystemPrograms.PollServerV1Table

/-!
# Why the poll server closes a connection

`handle_recv` returns 0 for a chunk that it has taken in as well as for the end of the
stream, and `main` closes in both cases. Without a chunk every `close` has its reason in
the log or in what `poll` has reported, provided that no entry starts with the `revents` of
an earlier connection.
-/

namespace LinuxSystemPrograms.PollServerV1Health

open LinuxSystemPrograms.CheckedArray
open LinuxSystemPrograms.ConnectionAccount
open LinuxSystemPrograms.EchoClient
open LinuxSystemPrograms.Framing
open LinuxSystemPrograms.PollServerV1
open LinuxSystemPrograms.PollServerV1Table
open LinuxSystemPrograms.Sockets
open LinuxSystemPrograms.Transition

set_option autoImplicit false

/-- The server has a reason to close the connection: `recv` has returned 0 on it, or `poll`
has reported `POLLHUP` or `POLLERR` for it. -/
def Excused (world : World) (id : Nat) : Prop :=
  ConnEvent.recv (.ok []) ∈ world.kernel.log id ∨ world.hungUp id = true

/-- No connection is closed without a reason, and one that has sent something and gives no
reason is in the table, with all its complete lines sent or queued. -/
structure Healthy (world : World) : Prop where
  closes : ∀ id, ConnEvent.close ∈ world.kernel.log id → Excused world id
  stays : ∀ id, received (world.kernel.log id) ≠ [] → ¬ Excused world id →
    ∃ k, Seated world.server k ∧ world.kernel.file (world.server.entry k).fd = .conn id ∧
      sent (world.kernel.log id) ++ (world.server.record k).queued =
        complete newline (received (world.kernel.log id))

/-- `recv` returns no bytes, and no entry is taken into use while its cell holds `POLLHUP` or
`POLLERR`. -/
def uneventful (world : World) : Label → Prop
  | .body answers => ∀ i ∈ world.cursor,
      (Accepts i world.server → answers.accept.toOption.isSome = true →
        (world.server.entry world.server.activeConns).revents.down = false) ∧
      (¬ Accepts i world.server → (world.server.entry i).revents.pollin = true →
        ∀ chunk ∈ answers.recv.toOption, chunk = [])
  | _ => True

instance (world : World) : (label : Label) → Decidable (uneventful world label)
  | .poll _ => isTrue trivial
  | .pollFailed => isTrue trivial
  | .body _ => inferInstanceAs (Decidable (∀ i ∈ world.cursor, _))

/-- What `poll` has reported for the entries that the pass has still to visit was reported for
the connections that they name. -/
structure Reported (world : World) : Prop where
  closes : ∀ id, ConnEvent.close ∈ world.kernel.log id → Excused world id
  noData : ∀ id, received (world.kernel.log id) = []
  marked : ∀ i ∈ world.cursor, ∀ k id, i ≤ k → k < world.server.activeConns →
    (world.server.entry k).revents.down = true →
    world.kernel.file (world.server.entry k).fd = .conn id → world.hungUp id = true
  atFirst : world.cursor = some 0 → ∀ k, 0 ≤ k → k < world.server.activeConns →
    world.kernel.file (world.server.entry k).fd = .closed →
    (world.server.entry k).revents.down = false

theorem boot_reported (serverFd : Fd) (stack : Int → Events) : Reported (boot serverFd stack) where
  closes _ closed := absurd closed List.not_mem_nil
  noData _ := rfl
  marked i atI := by cases atI
  atFirst atFirst := by cases atFirst

theorem reported_down {kernel : Kernel Return} {server : Server} {report : Int → Events}
    {k : Int} {id : Nat} (from0 : 0 ≤ k) (inTable : k < server.activeConns)
    (owner : kernel.file (server.entry k).fd = .conn id) (down : (report k).down = true) :
    reportedDown kernel server report id = true := by
  rw [reportedDown, List.any_eq_true]
  refine ⟨k.toNat, List.mem_range.mpr (by omega), ?_⟩
  rw [Int.toNat_of_nonneg from0]
  simp [owner, down]

theorem reported_polled {world : World} (reported : Reported world) {report : Int → Events}
    (honest : Honest world (.poll report)) : Reported (world.afterPoll report) := by
  constructor
  case closes =>
    intro id closed
    rcases reported.closes id closed with ended | hungUp
    · exact Or.inl ended
    · exact Or.inr (by simp [World.afterPoll, hungUp])
  case noData => exact reported.noData
  case marked =>
    intro i atI k id later inTable down owner
    obtain ⟨rfl, _⟩ := scan_eq_some.mp atI
    have listed : k < world.server.activeConns := inTable
    have entryFd := polled_fd report world.server k
    have revents := @polled_revents report world.server k ⟨later, listed⟩
    simp only [World.afterPoll] at down owner ⊢
    rw [revents] at down
    rw [entryFd] at owner
    simp [reported_down later listed owner down]
  case atFirst =>
    intro _ k from0 inTable closed
    have entryFd := polled_fd report world.server k
    have revents := @polled_revents report world.server k ⟨from0, inTable⟩
    simp only [World.afterPoll] at closed ⊢
    rw [entryFd] at closed
    rw [revents, (honest k from0 inTable).2 closed]
    rfl

theorem excused_mono {world after : World} {id : Nat} (excused : Excused world id)
    (log : world.kernel.log id ⊆ after.kernel.log id) (hungUp : after.hungUp = world.hungUp) :
    Excused after id := by
  rcases excused with ended | down
  · exact Or.inl (log ended)
  · exact Or.inr (by rw [hungUp, down])

/-- What was reported for an entry with the number that is used again was reported before, and
nothing was. -/
theorem reported_accepted {world : World} {clientFd : Fd} (reported : Reported world)
    (atFirst : world.cursor = some 0) (unused : world.kernel.file clientFd = .closed)
    (clear : (world.server.entry world.server.activeConns).revents.down = false) :
    Reported (world.afterBody ⟨withAccepted clientFd world.server, 0 + 1, [.accept clientFd]⟩) := by
  constructor
  case closes => exact reported.closes
  case noData => exact reported.noData
  case marked =>
    intro i atI k id later inTable down owner
    obtain ⟨rfl, _⟩ := scan_eq_some.mp atI
    have listedNow : k < (withAccepted clientFd world.server).activeConns := inTable
    rw [accepted_active] at listedNow
    simp only [World.afterBody] at down owner ⊢
    by_cases new : k = world.server.activeConns
    · subst new
      rw [accepted_entry_new, clear] at down
      cases down
    · rw [accepted_entry_old clientFd _ new] at down owner
      have from1 : (0 : Int) + 1 ≤ k := later
      have from0 : 0 ≤ k := by omega
      have listed : k < world.server.activeConns := by omega
      by_cases same : (world.server.entry k).fd = clientFd
      · have quiet := reported.atFirst atFirst k from0 listed (by rw [same, unused])
        rw [quiet] at down
        cases down
      · have before : world.kernel.file (world.server.entry k).fd = .conn id :=
          (Kernel.open_file_other world.kernel same).symm.trans owner
        exact reported.marked 0 atFirst k id from0 listed down before
  case atFirst =>
    intro first
    obtain ⟨same, _⟩ := scan_eq_some.mp first
    cases same

/-- `remove_conn` moves an entry down to the index that is visited next. -/
theorem reported_removed {i : Int} {world after : World} {tables : Tables} {echo : LineEcho}
    (reported : Reported world) (atI : world.cursor = some i) (from0 : 0 ≤ i)
    (inTable : i < world.server.activeConns)
    (served : Served i world.server.tables tables echo)
    (closed : Closed (world.server.entry i).fd world.kernel after.kernel)
    (afterTables : after.server.tables = removed i tables world.server.activeConns)
    (length : after.server.activeConns ≤ world.server.activeConns)
    (cursor : after.cursor = scan i after.server) (hungUp : after.hungUp = world.hungUp)
    (inner : i = 0 → after.server.activeConns = 0)
    (closes : ∀ id, ConnEvent.close ∈ after.kernel.log id → Excused after id)
    (noData : ∀ id, received (after.kernel.log id) = []) : Reported after := by
  constructor
  case closes => exact closes
  case noData => exact noData
  case marked =>
    intro j atJ k id later listed down owner
    rw [cursor] at atJ
    obtain ⟨rfl, _⟩ := scan_eq_some.mp atJ
    have inside : k ≠ world.server.activeConns := by omega
    rw [Server.entry, afterTables, removed_revents served inside] at down
    rw [Server.entry, afterTables, removed_fd served inside] at owner
    rw [hungUp]
    have range : j ≤ origin j world.server.activeConns k ∧
        origin j world.server.activeConns k < world.server.activeConns := by
      unfold origin
      split_ifs
      · omega
      · omega
    exact reported.marked j atI _ id range.1 range.2 down (closed.named owner).2
  case atFirst =>
    intro first
    rw [cursor] at first
    obtain ⟨same, more⟩ := scan_eq_some.mp first
    have := inner same.symm
    omega

/-- A pass that only calls the handlers goes on to the next entry. -/
theorem reported_kept {i : Int} {world after : World} {tables : Tables} {echo : LineEcho}
    (reported : Reported world) (atI : world.cursor = some i) (from0 : 0 ≤ i)
    (served : Served i world.server.tables tables echo)
    (file : after.kernel.file = world.kernel.file)
    (server : after.server = { world.server with tables := tables })
    (cursor : after.cursor = scan (i + 1) after.server) (hungUp : after.hungUp = world.hungUp)
    (closes : ∀ id, ConnEvent.close ∈ after.kernel.log id → Excused after id)
    (noData : ∀ id, received (after.kernel.log id) = []) : Reported after := by
  constructor
  case closes => exact closes
  case noData => exact noData
  case marked =>
    intro j atJ k id later listed down owner
    rw [cursor] at atJ
    obtain ⟨rfl, _⟩ := scan_eq_some.mp atJ
    rw [server] at down owner listed
    rw [Server.entry, served.kept.revents] at down
    rw [Server.entry, served.kept.fd, file] at owner
    rw [hungUp]
    exact reported.marked i atI k id (by omega) listed down owner
  case atFirst =>
    intro first
    rw [cursor] at first
    obtain ⟨same, _⟩ := scan_eq_some.mp first
    omega

theorem received_read_events {answers : Answers} {revents : Events} {echo : LineEcho}
    (noData : revents.pollin = true → ∀ chunk ∈ answers.recv.toOption, chunk = []) :
    received (readEvents answers revents echo) = [] := by
  unfold readEvents
  split_ifs with readable
  · rw [received_recv_events]
    cases result : answers.recv with
    | error reason => rfl
    | ok chunk =>
        have empty := noData readable chunk (by rw [result]; rfl)
        rw [empty]
        rfl
  · rfl

theorem received_handler_events {answers : Answers} {i : Int} {server : Server}
    (noData : (server.entry i).revents.pollin = true →
      ∀ chunk ∈ answers.recv.toOption, chunk = []) :
    received (handlerEvents answers i server) = [] := by
  have written : ∀ echo, received (writeEvents answers (server.entry i).revents echo) = [] := by
    intro echo
    unfold writeEvents
    split_ifs
    · exact received_send_events _ _ _
    · rfl
  rw [handlerEvents, received_append, received_read_events noData, written]
  rfl

/-- Where `handle_recv` returns 0 without a chunk, `recv` has returned 0. -/
theorem ended_of_taken {answers : Answers} {revents : Events} {record : Client}
    (taken : Taken answers revents record.view)
    (noData : ∀ chunk ∈ answers.recv.toOption, chunk = []) :
    ConnEvent.recv (.ok []) ∈ readEvents answers revents record.view := by
  obtain ⟨readable, fits⟩ := taken_iff.mp taken
  rw [readEvents, if_pos readable]
  cases result : answers.recv with
  | error reason =>
      rw [result] at fits
      exact absurd fits id
  | ok chunk =>
      have empty := noData chunk (by rw [result]; rfl)
      rw [empty]
      exact List.mem_cons_self

/-- The log of a pass that closes the connection of entry `i`, if it names one. -/
structure Closing (i : Int) (world after : World) (events : List Event) : Prop where
  log : ∀ id, after.kernel.log id =
    world.kernel.log id ++ (if world.kernel.file (world.server.record i).clientFd = .conn id
      then events else []) ++
      if world.kernel.file (world.server.entry i).fd = .conn id then [.close] else []
  hungUp : after.hungUp = world.hungUp

theorem closing_exec {i : Int} {world after : World} {events : List Event}
    (noClose : ConnEvent.close ∉ events)
    (kernel : after.kernel = world.kernel.exec (events.map (.io (world.server.record i).clientFd) ++
      [.io (world.server.entry i).fd .close]))
    (hungUp : after.hungUp = world.hungUp) : Closing i world after events := by
  refine ⟨?_, hungUp⟩
  intro id
  rw [kernel, exec_closing_log _ _ _ noClose]

theorem close_not_logged {events : List Event} (noClose : ConnEvent.close ∉ events)
    (logged : Prop) [Decidable logged] : ConnEvent.close ∉ if logged then events else [] := by
  split_ifs
  · exact noClose
  · exact List.not_mem_nil

theorem closing_closes {i : Int} {world after : World} {events : List Event}
    (closing : Closing i world after events) (reported : Reported world)
    (noClose : ConnEvent.close ∉ events)
    (reason : ∀ id, world.kernel.file (world.server.entry i).fd = .conn id →
      Excused after id) (id : Nat) (closed : ConnEvent.close ∈ after.kernel.log id) :
    Excused after id := by
  by_cases owner : world.kernel.file (world.server.entry i).fd = .conn id
  · exact reason id owner
  · rw [closing.log, if_neg owner, List.append_nil, List.mem_append] at closed
    rcases closed with early | now
    · apply excused_mono (reported.closes id early) _ closing.hungUp
      rw [closing.log, List.append_assoc]
      exact List.subset_append_left _ _
    · exact absurd now (close_not_logged noClose _)

theorem closing_no_data {i : Int} {world after : World} {events : List Event}
    (closing : Closing i world after events) (reported : Reported world)
    (noData : received events = []) (id : Nat) : received (after.kernel.log id) = [] := by
  rw [closing.log, received_append, received_append, reported.noData]
  split_ifs
  · rw [noData]
    rfl
  · rw [noData]
    rfl
  · rfl
  · rfl

theorem reachable_reported {world : World}
    (reached : Reachable (guarded system uneventful) world) : Reported world := by
  apply reachable_good _ _ _ reached
  · exact boot_reported
  · exact fun world report laid reported honest => reported_polled reported honest
  · intro world answers i passed laid reported allowed honest atI from0 inTable pass
    obtain ⟨clear, noData⟩ := allowed i atI
    have server : (world.afterBody passed).server = passed.server := rfl
    have cursor : (world.afterBody passed).cursor = scan passed.next passed.server := rfl
    have kernel : (world.afterBody passed).kernel = world.kernel.exec passed.actions := rfl
    have hungUp : (world.afterBody passed).hungUp = world.hungUp := rfl
    generalize afterEq : world.afterBody passed = after at server cursor kernel hungUp ⊢
    cases pass with
    | refused accepts failed =>
        have served : Served i world.server.tables world.server.tables
            (world.server.record i).view := ⟨Kept.refl i _, rfl⟩
        subst afterEq
        exact reported_kept reported atI from0 served rfl rfl rfl rfl reported.closes
          reported.noData
    | @accepted clientFd accepts granted room =>
        have first : i = 0 := by
          by_contra inner
          exact laid.other i ⟨by omega, inTable⟩ accepts.1
        subst first
        have unused := (honest.1 clientFd (by rw [granted]; rfl)).2
        rw [← afterEq]
        exact reported_accepted reported atI unused (clear accepts (by rw [granted]; rfl))
    | @removed tables serves inner taken removable served =>
        have noClose := read_events_no_close answers (world.server.entry i).revents
          (world.server.record i).view
        have quiet := noData serves taken.1
        have ended := ended_of_taken taken quiet
        have closing := closing_exec noClose kernel hungUp
        apply reported_removed reported atI from0 inTable served
        · rw [kernel]
          exact exec_closed _ _ _ noClose
        · rw [server]
        · rw [server]
        · rw [cursor, server]
        · exact hungUp
        · intro first
          omega
        · apply closing_closes closing reported noClose
          intro id owner
          refine Or.inl ?_
          rw [closing.log, laid.paired i ⟨inner, inTable⟩, if_pos owner]
          simp [ended]
        · exact closing_no_data closing reported (received_read_events fun _ => quiet)
    | @hungUp tables serves reaches notTaken down removable served =>
        have noClose := handler_events_no_close answers i world.server
        have closing := closing_exec noClose kernel hungUp
        apply reported_removed reported atI from0 inTable served
        · rw [kernel]
          exact exec_closed _ _ _ noClose
        · rw [server]
        · rw [server]
          exact Int.sub_le_self _ (by decide)
        · rw [cursor, server]
        · exact hungUp
        · intro first
          have alone := removable.2
          simp only [server]
          omega
        · apply closing_closes closing reported noClose
          intro id owner
          refine Or.inr ?_
          rw [hungUp]
          exact reported.marked i atI i id (Int.le_refl i) inTable down owner
        · exact closing_no_data closing reported (received_handler_events (noData serves))
    | kept serves reaches notTaken up served =>
        have noClose := handler_events_no_close answers i world.server
        have log : ∀ id, after.kernel.log id = world.kernel.log id ++
            if world.kernel.file (world.server.record i).clientFd = .conn id
              then handlerEvents answers i world.server else [] := by
          intro id
          rw [kernel, handlerActions, Kernel.exec_io_log _ _ noClose]
        apply reported_kept reported atI from0 served
        · rw [kernel]
          exact Kernel.exec_io_file _ _ noClose
        · exact server
        · rw [cursor, server]
        · exact hungUp
        · intro id closed
          rw [log, List.mem_append] at closed
          rcases closed with early | now
          · apply excused_mono (reported.closes id early) _ hungUp
            rw [log]
            exact List.subset_append_left _ _
          · exact absurd now (close_not_logged noClose _)
        · intro id
          rw [log, received_append, reported.noData]
          split_ifs
          · rw [received_handler_events (noData serves)]
            rfl
          · rfl

/-- In a run without a chunk and without stale `revents` no healthy connection is closed. -/
theorem closed_with_reason {world : World}
    (reached : Reachable (guarded system uneventful) world) : Healthy world := by
  have reported := reachable_reported reached
  constructor
  case closes => exact reported.closes
  case stays =>
    intro id arrived
    exact absurd (reported.noData id) arrived

theorem closed_with_reason_end :
    ∃ world, Reachable (guarded system uneventful) world ∧ ConnEvent.close ∈ world.kernel.log 0 ∧
      Healthy world := by
  obtain ⟨world, reached, closed⟩ := exists_reachable_of_run
    (guarded_next_sound uneventful next_sound) ⟨3, fun _ => .zero, by decide, rfl⟩
    (connect ++ arrive (.ok [])) (fun world => ConnEvent.close ∈ world.kernel.log 0)
    (by decide +kernel)
  exact ⟨world, reached, closed, closed_with_reason reached⟩

/-- Every chunk that is taken in closes the connection it came from. -/
theorem chunk_closes {world after : World} {answers : Answers} {i : Int} {id : Nat}
    (reached : Reachable system world) (atI : world.cursor = some i)
    (owner : world.kernel.file (world.server.entry i).fd = .conn id)
    (readable : (world.server.entry i).revents.pollin = true)
    (fits : Fits (world.server.record i) (recv recvBufSize answers.recv))
    (taken : system.step world (.body answers) after) : ConnEvent.close ∈ after.kernel.log id := by
  have laid := (reachable_laid reached).1
  obtain ⟨from0, inTable, bounded⟩ := reachable_cursor reached atI
  obtain ⟨_, advanced⟩ := taken
  simp only [advance, atI, Option.map_eq_some_iff] at advanced
  obtain ⟨passed, result, rfl⟩ := advanced
  have notListening : ¬ Accepts i world.server := by
    intro accepts
    rw [accepts.1, laid.listening] at owner
    cases owner
  have isTaken := taken_iff.mpr ⟨readable, fits⟩
  cases body_pass from0 inTable bounded result with
  | refused accepts failed => exact absurd accepts notListening
  | accepted accepts granted room => exact absurd accepts notListening
  | removed serves inner taken removable served =>
      simp only [World.afterBody]
      rw [exec_closing_log _ _ _ (read_events_no_close _ _ _), if_pos owner]
      simp
  | hungUp serves reaches notTaken down removable served => exact absurd isTaken notTaken
  | kept serves reaches notTaken up served => exact absurd isTaken notTaken

/-- A peer that has sent a line is disconnected. -/
theorem line_drops_connection : ¬ ∀ world, Reachable system world → Healthy world := by
  intro always
  obtain ⟨world, reached, closed, notEnded, up⟩ := exists_reachable_of_run next_sound
    ⟨3, fun _ => .zero, by decide, rfl⟩ (connect ++ arrive (.ok [97, newline]))
    (fun world => ConnEvent.close ∈ world.kernel.log 0 ∧
      ConnEvent.recv (.ok []) ∉ world.kernel.log 0 ∧ world.hungUp 0 = false)
    (by decide +kernel)
  rcases (always world reached).closes 0 closed with ended | down
  · exact notEnded ended
  · rw [up] at down
    cases down

end LinuxSystemPrograms.PollServerV1Health
