import LinuxSystemPrograms.PollServerV1Pass

/-!
# The two arrays of the poll server

`Laid` is what the arrays satisfy in every run: the records stand beside their entries, and
no open connection is without an entry.
-/

namespace LinuxSystemPrograms.PollServerV1Table

open LinuxSystemPrograms.CheckedArray
open LinuxSystemPrograms.EchoClient
open LinuxSystemPrograms.PollServerV1
open LinuxSystemPrograms.Sockets
open LinuxSystemPrograms.Transition

set_option autoImplicit false

/-- The indices `1 <= k < active_conns` of the connections. -/
def Seated (server : Server) (k : Int) : Prop := 1 ≤ k ∧ k < server.activeConns

/-- Where `remove_conn` takes the new entry with index `k` from. -/
def origin (i activeConns k : Int) : Int := if k = i then activeConns - 1 else k

theorem origin_range {i activeConns k : Int} (inner : 1 ≤ i) (inTable : i < activeConns)
    (from1 : 1 ≤ k) (listed : k < activeConns) :
    1 ≤ origin i activeConns k ∧ origin i activeConns k < activeConns := by
  unfold origin
  split_ifs
  · omega
  · omega

section Removed

variable {i k activeConns : Int} {before tables : Tables} {echo : LineEcho}

theorem removed_fd (served : Served i before tables echo) (listed : k ≠ activeConns) :
    ((removed i tables activeConns).fds.cell k).fd =
      (before.fds.cell (origin i activeConns k)).fd := by
  rw [removed_fds tables listed, ← served.kept.fd]
  unfold origin
  split_ifs
  · rfl
  · rfl

theorem removed_revents (served : Served i before tables echo) (listed : k ≠ activeConns) :
    ((removed i tables activeConns).fds.cell k).revents =
      (before.fds.cell (origin i activeConns k)).revents := by
  rw [removed_fds tables listed, ← served.kept.revents]
  unfold origin
  split_ifs
  · rfl
  · rfl

theorem removed_record (i : Int) (tables : Tables) (listed : k ≠ activeConns) :
    (removed i tables activeConns).client.cell (k - 1) =
      tables.client.cell (origin i activeConns k - 1) := by
  rw [removed_client tables (by omega)]
  unfold origin
  by_cases own : k = i
  · have last : activeConns - 1 - 1 = activeConns - 2 := by omega
    rw [if_pos own, if_pos (by omega), last]
  · rw [if_neg own, if_neg (by omega)]

end Removed

structure Laid (server : Server) (kernel : Kernel Return) : Prop where
  range : 0 ≤ server.activeConns ∧ server.activeConns ≤ maxConnections + 1
  listening : kernel.file server.serverFd = .listener
  first : 1 ≤ server.activeConns → (server.entry 0).fd = server.serverFd
  other : ∀ k, Seated server k → (server.entry k).fd ≠ server.serverFd
  paired : ∀ k, Seated server k → (server.record k).clientFd = (server.entry k).fd
  owned : ∀ fd id, kernel.file fd = .conn id → ∃ k, Seated server k ∧ (server.entry k).fd = fd

theorem boot_active (serverFd : Fd) (stack : Int → Events) :
    (boot serverFd stack).server.activeConns = 1 := rfl

theorem not_seated_of_empty {server : Server} (empty : server.activeConns ≤ 1) (k : Int) :
    ¬ Seated server k := by
  unfold Seated
  omega

theorem boot_not_seated (serverFd : Fd) (stack : Int → Events) (k : Int) :
    ¬ Seated (boot serverFd stack).server k :=
  not_seated_of_empty (boot_active serverFd stack).le k

theorem boot_laid (serverFd : Fd) (stack : Int → Events) :
    Laid (boot serverFd stack).server (boot serverFd stack).kernel where
  range := by
    rw [boot_active, maxConnections]
    omega
  listening := Kernel.boot_file_listener serverFd
  first _ := congrArg PollFd.fd (CArray.put_same (initPollfd stack) 0 _)
  other k seated := absurd seated (boot_not_seated serverFd stack k)
  paired k seated := absurd seated (boot_not_seated serverFd stack k)
  owned fd id owner := by
    by_cases same : fd = serverFd <;> simp [boot, Kernel.boot, same] at owner

/-- Handlers and `poll` do not touch what `Laid` speaks about. -/
theorem laid_kept {server after : Server} {kernel now : Kernel Return}
    (laid : Laid server kernel) (file : now.file = kernel.file)
    (serverFd : after.serverFd = server.serverFd) (active : after.activeConns = server.activeConns)
    (fds : ∀ k, (after.entry k).fd = (server.entry k).fd)
    (clientFds : ∀ k, (after.record k).clientFd = (server.record k).clientFd) :
    Laid after now where
  range := by rw [active]; exact laid.range
  listening := by rw [file, serverFd]; exact laid.listening
  first started := by
    rw [fds, serverFd]
    exact laid.first (by rwa [active] at started)
  other k seated := by
    rw [Seated, active] at seated
    rw [fds, serverFd]
    exact laid.other k seated
  paired k seated := by
    rw [Seated, active] at seated
    rw [fds, clientFds]
    exact laid.paired k seated
  owned fd id owner := by
    rw [file] at owner
    obtain ⟨k, seated, same⟩ := laid.owned fd id owner
    refine ⟨k, ?_, (fds k).trans same⟩
    rwa [Seated, active]

theorem seated_accepted {clientFd : Fd} {server : Server} {k : Int}
    (seated : Seated (withAccepted clientFd server) k) :
    k = server.activeConns ∨ Seated server k ∧ k ≠ server.activeConns := by
  rw [Seated, accepted_active] at seated
  unfold Seated
  omega

theorem laid_accepted {server : Server} {kernel : Kernel Return} (laid : Laid server kernel)
    (started : 1 ≤ server.activeConns) (room : server.activeConns ≤ maxConnections)
    {clientFd : Fd} (unused : kernel.file clientFd = .closed) :
    Laid (withAccepted clientFd server) (kernel.openConn clientFd) := by
  have notListener : clientFd ≠ server.serverFd := by
    intro same
    have listening := laid.listening
    rw [← same, unused] at listening
    cases listening
  constructor
  case range =>
    have := laid.range
    rw [accepted_active]
    omega
  case listening => exact (Kernel.open_file_other kernel notListener.symm).trans laid.listening
  case first =>
    intro _
    rw [accepted_entry_old clientFd server (by omega)]
    exact laid.first started
  case other =>
    intro k seated
    rcases seated_accepted seated with rfl | ⟨old, different⟩
    · rw [accepted_entry_new]
      exact notListener
    · rw [accepted_entry_old clientFd server different]
      exact laid.other k old
  case paired =>
    intro k seated
    rcases seated_accepted seated with rfl | ⟨old, different⟩
    · rw [accepted_entry_new, accepted_record_new]
    · rw [accepted_entry_old clientFd server different,
        accepted_record_old clientFd server different]
      exact laid.paired k old
  case owned =>
    intro fd id owner
    by_cases same : fd = clientFd
    · refine ⟨server.activeConns, ⟨started, ?_⟩, ?_⟩
      · rw [accepted_active]
        omega
      · rw [accepted_entry_new, same]
    · rw [Kernel.open_file_other _ same] at owner
      obtain ⟨k, ⟨from1, listed⟩, entryFd⟩ := laid.owned fd id owner
      refine ⟨k, ⟨from1, ?_⟩, ?_⟩
      · rw [accepted_active]
        omega
      · rw [accepted_entry_old clientFd server (by omega), entryFd]

structure Closed (fd : Fd) (kernel now : Kernel Return) : Prop where
  others : ∀ other, other ≠ fd → now.file other = kernel.file other
  unnamed : ∀ id, now.file fd ≠ .conn id
  listening : ∀ other, kernel.file other = .listener → now.file other = .listener

theorem Closed.named {fd other : Fd} {id : Nat} {kernel now : Kernel Return}
    (closed : Closed fd kernel now) (named : now.file other = .conn id) :
    other ≠ fd ∧ kernel.file other = .conn id := by
  have different : other ≠ fd := by
    rintro rfl
    exact closed.unnamed id named
  rw [closed.others other different] at named
  exact ⟨different, named⟩

theorem exec_closed (kernel : Kernel Return) (own fd : Fd) {events : List Event}
    (noClose : ConnEvent.close ∉ events) :
    Closed fd kernel (kernel.exec (events.map (.io own) ++ [.io fd .close])) := by
  have file : (kernel.exec (events.map (.io own))).file = kernel.file :=
    Kernel.exec_io_file kernel own noClose
  rw [Kernel.exec_append]
  constructor
  case others =>
    intro other different
    exact (Kernel.step_io_file_other _ .close different).trans (congrFun file other)
  case unnamed =>
    intro id named
    exact (Kernel.named_of_step_close named).1 rfl
  case listening =>
    intro other listening
    rw [← file] at listening
    exact Kernel.step_io_listener listening fd .close

/-- What a pass that closes a connection adds to the logs. -/
theorem exec_closing_log (kernel : Kernel Return) (own fd : Fd) {events : List Event}
    (noClose : ConnEvent.close ∉ events) (id : Nat) :
    (kernel.exec (events.map (.io own) ++ [.io fd .close])).log id =
      kernel.log id ++ (if kernel.file own = .conn id then events else []) ++
        if kernel.file fd = .conn id then [.close] else [] := by
  have file : (kernel.exec (events.map (.io own))).file = kernel.file :=
    Kernel.exec_io_file kernel own noClose
  rw [Kernel.exec_append, Kernel.exec_cons, Kernel.exec_nil, Kernel.step_close_log,
    Kernel.exec_io_log kernel own noClose, file]

/-- `remove_conn`, whether its caller keeps the new length or not. -/
theorem laid_removed {i : Int} {server after : Server} {kernel now : Kernel Return}
    {tables : Tables} {echo : LineEcho} (laid : Laid server kernel) (inner : 1 ≤ i)
    (inTable : i < server.activeConns) (served : Served i server.tables tables echo)
    (closed : Closed (server.entry i).fd kernel now)
    (afterTables : after.tables = removed i tables server.activeConns)
    (afterFd : after.serverFd = server.serverFd)
    (length : after.activeConns = server.activeConns ∨
      after.activeConns = server.activeConns - 1) : Laid after now := by
  have source : ∀ k, Seated after k → Seated server (origin i server.activeConns k) ∧
      (after.entry k).fd = (server.entry (origin i server.activeConns k)).fd ∧
      (after.record k).clientFd = (server.record (origin i server.activeConns k)).clientFd := by
    intro k seated
    obtain ⟨from1, listed⟩ := seated
    have range := origin_range inner inTable from1 (by omega)
    refine ⟨range, ?_, ?_⟩
    · rw [Server.entry, afterTables, removed_fd served (by omega)]
    · rw [Server.record, afterTables, removed_record i tables (by omega), served.kept.clientFd]
  constructor
  case range =>
    have := laid.range
    omega
  case listening =>
    rw [afterFd]
    exact closed.listening _ laid.listening
  case first =>
    intro _
    have fixed : origin i server.activeConns 0 = 0 := if_neg (by omega)
    rw [Server.entry, afterTables, removed_fd served (by omega), fixed, afterFd]
    exact laid.first (by omega)
  case other =>
    intro k seated
    obtain ⟨before, fd, _⟩ := source k seated
    rw [fd, afterFd]
    exact laid.other _ before
  case paired =>
    intro k seated
    obtain ⟨before, fd, clientFd⟩ := source k seated
    rw [fd, clientFd]
    exact laid.paired _ before
  case owned =>
    intro fd id owner
    obtain ⟨different, before⟩ := closed.named owner
    obtain ⟨k, ⟨from1, listed⟩, entryFd⟩ := laid.owned fd id before
    have notRemoved : k ≠ i := by
      rintro rfl
      exact different entryFd.symm
    by_cases stays : k < after.activeConns
    · have fixed : origin i server.activeConns k = k := if_neg notRemoved
      refine ⟨k, ⟨from1, stays⟩, ?_⟩
      rw [Server.entry, afterTables, removed_fd served (by omega), fixed, ← entryFd]
    · have moved : origin i server.activeConns i = k := by
        rw [origin, if_pos rfl]
        omega
      refine ⟨i, ⟨inner, by omega⟩, ?_⟩
      rw [Server.entry, afterTables, removed_fd served (by omega), moved, ← entryFd]

/-- A hang-up of the listening socket with no connection left empties the table for good. -/
theorem laid_emptied {server after : Server} {kernel now : Kernel Return} {fd : Fd}
    (laid : Laid server kernel) (alone : server.activeConns = 1)
    (closed : Closed fd kernel now) (afterFd : after.serverFd = server.serverFd)
    (empty : after.activeConns = 0) : Laid after now where
  range := by
    rw [empty, maxConnections]
    omega
  listening := by
    rw [afterFd]
    exact closed.listening _ laid.listening
  first started := by omega
  other k seated := absurd seated (not_seated_of_empty (by omega) k)
  paired k seated := absurd seated (not_seated_of_empty (by omega) k)
  owned other id owner := by
    obtain ⟨k, seated, _⟩ := laid.owned other id (closed.named owner).2
    exact absurd seated (not_seated_of_empty alone.le k)

theorem pass_laid {answers : Answers} {i : Int} {server : Server} {kernel : Kernel Return}
    {passed : Passed} (laid : Laid server kernel) (from0 : 0 ≤ i)
    (inTable : i < server.activeConns)
    (granted : ∀ fd ∈ answers.accept.toOption, 0 ≤ fd ∧ kernel.file fd = .closed)
    (pass : Pass answers i server passed) : Laid passed.server (kernel.exec passed.actions) := by
  cases pass with
  | refused => exact laid
  | @accepted clientFd accepts accepted room =>
      have unused := (granted clientFd (by rw [accepted]; rfl)).2
      exact laid_accepted laid (by omega) room unused
  | removed serves inner taken removable served =>
      have closed := exec_closed kernel (server.record i).clientFd (server.entry i).fd
        (read_events_no_close answers (server.entry i).revents (server.record i).view)
      exact laid_removed laid inner inTable served closed rfl rfl (Or.inl rfl)
  | hungUp serves reaches notTaken down removable served =>
      have closed := exec_closed kernel (server.record i).clientFd (server.entry i).fd
        (handler_events_no_close answers i server)
      rcases removable.2 with inner | alone
      · exact laid_removed laid inner inTable served closed rfl rfl (Or.inr rfl)
      · exact laid_emptied laid alone closed rfl (by simp [alone])
  | kept serves reaches notTaken up served =>
      apply laid_kept laid
      · exact Kernel.exec_io_file kernel _ (handler_events_no_close answers i server)
      · rfl
      · rfl
      · exact served.kept.fd
      · exact fun k => served.kept.clientFd (k - 1)

theorem polled_fd (report : Int → Events) (server : Server) (k : Int) :
    ((polled report server).entry k).fd = (server.entry k).fd := by
  simp only [Server.entry, polled]
  split_ifs
  · rfl
  · rfl

theorem polled_revents (report : Int → Events) {server : Server} {k : Int}
    (listed : server.Listed k) : ((polled report server).entry k).revents = report k := by
  simp only [Server.entry, polled, if_pos listed]

theorem poll_laid {world : World} (laid : Laid world.server world.kernel)
    (report : Int → Events) :
    Laid (world.afterPoll report).server (world.afterPoll report).kernel := by
  apply laid_kept laid
  · rfl
  · rfl
  · rfl
  · exact polled_fd report world.server
  · exact fun k => rfl

theorem scan_eq_some {next i : Int} {server : Server} :
    i ∈ scan next server ↔ i = next ∧ next < server.activeConns := by
  unfold scan
  split_ifs with more
  · simp [more, eq_comm]
  · simp [more]

/-- Every run keeps the arrays laid out, and the index of the `for` loop inside the table. -/
theorem reachable_laid {world : World} (reached : Reachable system world) :
    Laid world.server world.kernel ∧
      ∀ i ∈ world.cursor, 0 ≤ i ∧ i < world.server.activeConns := by
  apply reachable_invariant _ _ reached
  · rintro _ ⟨serverFd, stack, _, rfl⟩
    exact ⟨boot_laid serverFd stack, by simp [boot]⟩
  · intro world label after _ good taken
    obtain ⟨laid, cursor⟩ := good
    rcases step_cases taken with
      ⟨report, rfl, _, rfl⟩ | ⟨rfl, rfl⟩ | ⟨answers, i, passed, rfl, atI, result, rfl⟩
    · refine ⟨poll_laid laid report, ?_⟩
      intro i now
      obtain ⟨rfl, more⟩ := scan_eq_some.mp now
      exact ⟨Int.le_refl 0, more⟩
    · exact ⟨laid, cursor⟩
    · obtain ⟨from0, inTable⟩ := cursor i atI
      have pass := body_pass from0 inTable laid.range.2 result
      refine ⟨pass_laid laid from0 inTable taken.1.1 pass, ?_⟩
      intro j now
      obtain ⟨rfl, more⟩ := scan_eq_some.mp now
      have next := pass_next pass
      exact ⟨by omega, more⟩

theorem reachable_cursor {world : World} {i : Int} (reached : Reachable system world)
    (atI : world.cursor = some i) :
    0 ≤ i ∧ i < world.server.activeConns ∧ world.server.activeConns ≤ maxConnections + 1 := by
  obtain ⟨laid, cursor⟩ := reachable_laid reached
  exact ⟨(cursor i atI).1, (cursor i atI).2, laid.range.2⟩

/-- The induction over a run whose passes meet a condition. -/
theorem reachable_good {Allowed : World → Label → Prop} {Good : World → Prop}
    (base : ∀ serverFd stack, Good (boot serverFd stack))
    (poll : ∀ world report, Laid world.server world.kernel → Good world →
      Honest world (.poll report) → Good (world.afterPoll report))
    (body : ∀ world answers i passed, Laid world.server world.kernel → Good world →
      Allowed world (.body answers) → Honest world (.body answers) → world.cursor = some i →
      0 ≤ i → i < world.server.activeConns → Pass answers i world.server passed →
      Good (world.afterBody passed))
    {world : World} (reached : Reachable (guarded system Allowed) world) : Good world := by
  apply reachable_invariant _ _ reached
  · rintro _ ⟨serverFd, stack, _, rfl⟩
    exact base serverFd stack
  · intro world label after prior good taken
    obtain ⟨allowed, step⟩ := taken
    have before := reachable_of_guarded prior
    have laid := (reachable_laid before).1
    rcases step_cases step with
      ⟨report, rfl, _, rfl⟩ | ⟨rfl, rfl⟩ | ⟨answers, i, passed, rfl, atI, result, rfl⟩
    · exact poll world report laid good step.1
    · exact good
    · obtain ⟨from0, inTable, bounded⟩ := reachable_cursor before atI
      exact body world answers i passed laid good allowed step.1 atI from0 inTable
        (body_pass from0 inTable bounded result)

/-! ## Every connection has one entry -/

structure Consistent (world : World) : Prop where
  opened : ∀ k, Seated world.server k → ∃ id, world.kernel.file (world.server.entry k).fd = .conn id
  listed : ∀ fd id, world.kernel.file fd = .conn id →
    ∃! k, Seated world.server k ∧ (world.server.entry k).fd = fd
  distinct : ∀ k l, Seated world.server k → Seated world.server l →
    (world.server.entry k).fd = (world.server.entry l).fd → k = l
  paired : ∀ k, Seated world.server k →
    (world.server.record k).clientFd = (world.server.entry k).fd

/-- The branch of `main` that removes an entry without keeping the new length is not taken. -/
def neverTaken (world : World) : Label → Prop
  | .body answers => ∀ i ∈ world.cursor, ¬ Accepts i world.server →
      (world.server.entry i).revents.pollin = true →
      ¬ Fits (world.server.record i) (recv recvBufSize answers.recv)
  | _ => True

instance (world : World) : (label : Label) → Decidable (neverTaken world label)
  | .poll _ => isTrue trivial
  | .pollFailed => isTrue trivial
  | .body _ => inferInstanceAs (Decidable (∀ i ∈ world.cursor, _))

structure Tidy (server : Server) (kernel : Kernel Return) : Prop where
  opened : ∀ k, Seated server k → ∃ id, kernel.file (server.entry k).fd = .conn id
  distinct : ∀ k l, Seated server k → Seated server l →
    (server.entry k).fd = (server.entry l).fd → k = l

theorem tidy_kept {server after : Server} {kernel now : Kernel Return} (tidy : Tidy server kernel)
    (file : now.file = kernel.file) (active : after.activeConns = server.activeConns)
    (fds : ∀ k, (after.entry k).fd = (server.entry k).fd) : Tidy after now where
  opened k seated := by
    rw [Seated, active] at seated
    rw [file, fds]
    exact tidy.opened k seated
  distinct k l seated otherSeated same := by
    rw [Seated, active] at seated otherSeated
    rw [fds, fds] at same
    exact tidy.distinct k l seated otherSeated same

theorem tidy_accepted {server : Server} {kernel : Kernel Return} (tidy : Tidy server kernel)
    {clientFd : Fd} (unused : kernel.file clientFd = .closed) :
    Tidy (withAccepted clientFd server) (kernel.openConn clientFd) := by
  have notSeated : ∀ k, Seated server k → (server.entry k).fd ≠ clientFd := by
    intro k seated same
    obtain ⟨id, owner⟩ := tidy.opened k seated
    rw [same, unused] at owner
    cases owner
  constructor
  case opened =>
    intro k seated
    rcases seated_accepted seated with rfl | ⟨old, different⟩
    · rw [accepted_entry_new]
      exact ⟨kernel.accepted, Kernel.open_file_same kernel clientFd⟩
    · rw [accepted_entry_old clientFd server different,
        Kernel.open_file_other kernel (notSeated k old)]
      exact tidy.opened k old
  case distinct =>
    intro k l seated otherSeated same
    rcases seated_accepted seated with rfl | ⟨old, different⟩
    · rcases seated_accepted otherSeated with rfl | ⟨oldOther, differentOther⟩
      · rfl
      · rw [accepted_entry_new, accepted_entry_old clientFd server differentOther] at same
        exact absurd same.symm (notSeated l oldOther)
    · rcases seated_accepted otherSeated with rfl | ⟨oldOther, differentOther⟩
      · rw [accepted_entry_new, accepted_entry_old clientFd server different] at same
        exact absurd same (notSeated k old)
      · rw [accepted_entry_old clientFd server different,
          accepted_entry_old clientFd server differentOther] at same
        exact tidy.distinct k l old oldOther same

/-- `remove_conn` with the new length kept. -/
theorem tidy_removed {i : Int} {server after : Server} {kernel now : Kernel Return}
    {tables : Tables} {echo : LineEcho} (tidy : Tidy server kernel) (inner : 1 ≤ i)
    (inTable : i < server.activeConns) (served : Served i server.tables tables echo)
    (closed : Closed (server.entry i).fd kernel now)
    (afterTables : after.tables = removed i tables server.activeConns)
    (length : after.activeConns = server.activeConns - 1) : Tidy after now := by
  have source : ∀ k, Seated after k → Seated server (origin i server.activeConns k) ∧
      origin i server.activeConns k ≠ i ∧
      (after.entry k).fd = (server.entry (origin i server.activeConns k)).fd := by
    intro k seated
    obtain ⟨from1, listed⟩ := seated
    refine ⟨origin_range inner inTable from1 (by omega), ?_, ?_⟩
    · unfold origin
      split_ifs
      · omega
      · assumption
    · rw [Server.entry, afterTables, removed_fd served (by omega)]
  constructor
  case opened =>
    intro k seated
    obtain ⟨before, notRemoved, fd⟩ := source k seated
    have different : (server.entry (origin i server.activeConns k)).fd ≠ (server.entry i).fd := by
      intro same
      exact notRemoved (tidy.distinct _ i before ⟨inner, inTable⟩ same)
    rw [fd, closed.others _ different]
    exact tidy.opened _ before
  case distinct =>
    intro k l seated otherSeated same
    obtain ⟨before, _, fd⟩ := source k seated
    obtain ⟨beforeOther, _, otherFd⟩ := source l otherSeated
    rw [fd, otherFd] at same
    have sources := tidy.distinct _ _ before beforeOther same
    obtain ⟨_, listed⟩ := seated
    obtain ⟨_, listedOther⟩ := otherSeated
    unfold origin at sources
    split_ifs at sources
    · omega
    · omega
    · omega
    · exact sources

theorem reachable_tidy {world : World} (reached : Reachable (guarded system neverTaken) world) :
    Tidy world.server world.kernel := by
  apply reachable_good _ _ _ reached
  · intro serverFd stack
    constructor
    · exact fun k seated => absurd seated (boot_not_seated serverFd stack k)
    · exact fun k _ seated => absurd seated (boot_not_seated serverFd stack k)
  · intro world report laid tidy honest
    apply tidy_kept tidy
    · rfl
    · rfl
    · exact polled_fd report world.server
  · intro world answers i passed laid tidy allowed honest atI from0 inTable pass
    cases pass with
    | refused => exact tidy
    | @accepted clientFd accepts accepted room =>
        have unused := (honest.1 clientFd (by rw [accepted]; rfl)).2
        exact tidy_accepted tidy unused
    | removed serves inner taken removable served => exact absurd (taken_iff.mp taken).2 (allowed i atI serves taken.1)
    | hungUp serves reaches notTaken down removable served =>
        have closed := exec_closed world.kernel (world.server.record i).clientFd
          (world.server.entry i).fd (handler_events_no_close answers i world.server)
        rcases removable.2 with inner | alone
        · exact tidy_removed tidy inner inTable served closed rfl rfl
        · have empty : world.server.activeConns - 1 ≤ 1 := by omega
          constructor
          · exact fun k seated => absurd seated (not_seated_of_empty empty k)
          · exact fun k _ seated => absurd seated (not_seated_of_empty empty k)
    | kept serves reaches notTaken up served =>
        apply tidy_kept tidy
        · exact Kernel.exec_io_file world.kernel _ (handler_events_no_close answers i world.server)
        · rfl
        · exact served.kept.fd

/-- As long as `handle_recv` never returns 0 the table is consistent, when `poll` is called and
in between. -/
theorem entries_consistent {world : World}
    (reached : Reachable (guarded system neverTaken) world) : Consistent world := by
  have laid := (reachable_laid (reachable_of_guarded reached)).1
  have tidy := reachable_tidy reached
  refine ⟨tidy.opened, ?_, tidy.distinct, laid.paired⟩
  intro fd id owner
  obtain ⟨k, seated, entryFd⟩ := laid.owned fd id owner
  refine ⟨k, ⟨seated, entryFd⟩, ?_⟩
  rintro other ⟨otherSeated, otherFd⟩
  exact tidy.distinct other k otherSeated seated (otherFd.trans entryFd.symm)

theorem entries_consistent_moved :
    ∃ world, Reachable (guarded system neverTaken) world ∧ world.server.activeConns = 2 ∧
      (world.server.entry 1).fd = 6 ∧ Consistent world := by
  -- descriptor 5 is hung up and descriptor 6 takes its place
  obtain ⟨world, reached, active, moved⟩ := exists_reachable_of_run
    (guarded_next_sound neverTaken next_sound) ⟨3, fun _ => .zero, by decide, rfl⟩
    (connect ++
      [report 0 .read, .body { quiet with accept := .ok 6 }, .body quiet, .body quiet,
        report 1 ⟨false, false, true, false⟩, .body quiet, .body quiet, .body quiet])
    (fun world => world.server.activeConns = 2 ∧ (world.server.entry 1).fd = 6)
    (by decide +kernel)
  exact ⟨world, reached, active, moved, entries_consistent reached⟩

/-- The entry of a peer that has shut down stays in the table. -/
theorem entries_keep_closed :
    ¬ ∀ world, Reachable system world → world.cursor = none → Consistent world := by
  intro always
  obtain ⟨world, reached, atPoll, active, closed⟩ := exists_reachable_of_run next_sound
    ⟨3, fun _ => .zero, by decide, rfl⟩ (connect ++ arrive (.ok []))
    (fun world => world.cursor = none ∧ world.server.activeConns = 2 ∧
      world.kernel.file (world.server.entry 1).fd = .closed)
    (by decide +kernel)
  have seated : Seated world.server 1 := by
    rw [Seated, active]
    decide
  obtain ⟨id, owner⟩ := (always world reached atPoll).opened 1 seated
  rw [closed] at owner
  cases owner

end LinuxSystemPrograms.PollServerV1Table
