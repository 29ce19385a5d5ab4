import LinuxSystemPrograms.PollServerV1Isolation

/-!
# What a peer of the poll server sees

The first chunk that arrives on a connection is taken in and ends it: the server is an echo
server that never echoes. Only bytes left behind by an earlier connection could be sent, and
`cleanReuse` excludes those.
-/

namespace LinuxSystemPrograms.PollServerV1Mute

open LinuxSystemPrograms.ConnectionAccount
open LinuxSystemPrograms.EchoClient
open LinuxSystemPrograms.PollServerV1
open LinuxSystemPrograms.PollServerV1Isolation
open LinuxSystemPrograms.PollServerV1Table
open LinuxSystemPrograms.Sockets
open LinuxSystemPrograms.Transition

set_option autoImplicit false

/-- Nothing has arrived on an open connection, and one chunk at most on any. -/
structure Cut (kernel : Kernel Return) : Prop where
  formed : kernel.WellFormed
  nothing : ∀ fd id, kernel.file fd = .conn id → received (kernel.log id) = []
  short : ∀ id, (received (kernel.log id)).length ≤ recvBufSize

theorem boot_cut (serverFd : Fd) (stack : Int → Events) : Cut (boot serverFd stack).kernel where
  formed := Kernel.boot_well_formed serverFd
  nothing _ _ _ := rfl
  short _ := Nat.zero_le _

theorem cut_accepted {kernel : Kernel Return} (cut : Cut kernel) {clientFd : Fd}
    (valid : 0 ≤ clientFd) (unused : kernel.file clientFd = .closed) :
    Cut (kernel.openConn clientFd) where
  formed := Kernel.open_well_formed cut.formed valid unused
  nothing fd id owner := by
    by_cases same : fd = clientFd
    · rw [same, Kernel.open_file_same, File.conn.injEq] at owner
      rw [Kernel.open_log, ← owner, cut.formed.fresh _ (Nat.le_refl _)]
      rfl
    · rw [Kernel.open_file_other kernel same] at owner
      exact cut.nothing fd id owner
  short := cut.short

theorem io_no_accept (own fd : Fd) (events : List Event) (clientFd : Fd) :
    Action.accept clientFd ∉ events.map (.io own) ∧
      Action.accept clientFd ∉ events.map (.io own) ++ [Action.io fd .close] := by
  simp

/-- A pass that closes the connection which its events belong to. -/
theorem cut_closed {kernel : Kernel Return} (cut : Cut kernel) (fd : Fd) {events : List Event}
    (noClose : ConnEvent.close ∉ events) (chunk : (received events).length ≤ recvBufSize) :
    Cut (kernel.exec (events.map (.io fd) ++ [.io fd .close])) := by
  have log := exec_closing_log kernel fd fd noClose
  constructor
  case formed =>
    exact Kernel.exec_io_well_formed cut.formed fun clientFd =>
      (io_no_accept fd fd events clientFd).2
  case nothing =>
    intro other id owner
    obtain ⟨different, before⟩ := (exec_closed kernel fd fd noClose).named owner
    have notOwn : kernel.file fd ≠ .conn id := fun own =>
      different (cut.formed.single other fd id before own)
    rw [log, if_neg notOwn, if_neg notOwn, List.append_nil, List.append_nil]
    exact cut.nothing other id before
  case short =>
    intro id
    rw [log]
    split_ifs with own
    · simp only [received_append, cut.nothing fd id own, List.nil_append, received_cons,
        ConnEvent.receivedBytes, received_nil, List.append_nil]
      exact chunk
    · rw [List.append_nil, List.append_nil]
      exact cut.short id

/-- A pass whose events bring nothing to any connection. -/
theorem cut_silent {kernel now : Kernel Return} (cut : Cut kernel) (formed : now.WellFormed)
    (named : ∀ fd id, now.file fd = .conn id → kernel.file fd = .conn id)
    (nothing : ∀ id, received (now.log id) = received (kernel.log id)) : Cut now where
  formed := formed
  nothing fd id owner := by
    rw [nothing]
    exact cut.nothing fd id (named fd id owner)
  short id := by
    rw [nothing]
    exact cut.short id

theorem received_read_events (answers : Answers) (revents : Events) (echo : LineEcho) :
    (received (readEvents answers revents echo)).length ≤ recvBufSize := by
  unfold readEvents
  split_ifs
  · rw [received_recv_events]
    cases result : recv recvBufSize answers.recv with
    | error reason => exact Nat.zero_le _
    | ok chunk => exact recv_ok_length result
  · exact Nat.zero_le _

theorem received_write_events (answers : Answers) (revents : Events) (echo : LineEcho) :
    received (writeEvents answers revents echo) = [] := by
  unfold writeEvents
  split_ifs
  · exact received_send_events _ _ _
  · rfl

/-- Whatever arrives for an empty record is taken in. -/
theorem received_not_taken {answers : Answers} {revents : Events} {record : Client}
    (empty : record.view = .empty) (notTaken : ¬ Taken answers revents record.view) :
    received (readEvents answers revents record.view) = [] := by
  unfold readEvents
  split_ifs with readable
  · rw [received_recv_events]
    cases result : recv recvBufSize answers.recv with
    | error reason => rfl
    | ok chunk =>
        have fits := fits_of_empty empty answers.recv result
        exact absurd (taken_iff.mpr ⟨readable, fits⟩) notTaken
  · rfl

/-- The handlers of a connection that stays open have received nothing. -/
theorem received_handlers {answers : Answers} {i : Int} {server : Server}
    {kernel : Kernel Return} {tables : Tables} (laid : Laid server kernel)
    (silent : Silent server kernel) (inTable : i < server.activeConns)
    (reaches : Reaches i ((server.entry i).revents.pollin || (server.entry i).revents.pollout)
      server.tables tables)
    (notTaken : ¬ Taken answers (server.entry i).revents (server.record i).view) (id : Nat) :
    received (if kernel.file (server.record i).clientFd = .conn id
      then handlerEvents answers i server else []) = [] := by
  split_ifs with owner
  · rcases reaches with inner | ⟨idle, _⟩
    · have seated : Seated server i := ⟨inner, inTable⟩
      rw [laid.paired i seated] at owner
      rw [handlerEvents, received_append,
        received_not_taken (silent.opened i id seated owner) notTaken, received_write_events]
      rfl
    · rw [Bool.or_eq_false_iff] at idle
      simp [handlerEvents, readEvents, writeEvents, idle.1, idle.2]
  · rfl

theorem reachable_cut {world : World} (reached : Reachable (guarded system cleanReuse) world) :
    Cut world.kernel := by
  apply reachable_invariant _ _ reached
  · rintro _ ⟨serverFd, stack, _, rfl⟩
    exact boot_cut serverFd stack
  · intro world label after prior cut taken
    have before := reachable_of_guarded prior
    have silent := reachable_silent prior
    have laid := (reachable_laid before).1
    obtain ⟨_, step⟩ := taken
    have honest := step.1
    rcases step_cases step with
      ⟨report, rfl, _, rfl⟩ | ⟨rfl, rfl⟩ | ⟨answers, i, passed, rfl, atI, result, rfl⟩
    · exact cut
    · exact cut
    · obtain ⟨from0, inTable, bounded⟩ := reachable_cursor before atI
      simp only [World.afterBody]
      cases body_pass from0 inTable bounded result with
      | refused accepts failed => exact cut
      | @accepted clientFd accepts granted room =>
          obtain ⟨valid, unused⟩ := honest.1 clientFd (by rw [granted]; rfl)
          exact cut_accepted cut valid unused
      | removed serves inner taken removable served =>
          simp only [laid.paired i ⟨inner, inTable⟩]
          exact cut_closed cut _ (read_events_no_close _ _ _) (received_read_events _ _ _)
      | hungUp serves reaches notTaken down removable served =>
          have noClose := handler_events_no_close answers i world.server
          apply cut_silent cut
          · exact Kernel.exec_io_well_formed cut.formed fun clientFd =>
              (io_no_accept _ _ _ clientFd).2
          · exact fun fd id named => ((exec_closed _ _ _ noClose).named named).2
          · intro id
            rw [handlerActions, exec_closing_log _ _ _ noClose, received_append, received_append,
              received_handlers laid silent inTable reaches notTaken, List.append_nil]
            split_ifs
            · exact List.append_nil _
            · exact List.append_nil _
      | kept serves reaches notTaken up served =>
          have noClose := handler_events_no_close answers i world.server
          apply cut_silent cut
          · exact Kernel.exec_io_well_formed cut.formed fun clientFd =>
              (io_no_accept _ 0 _ clientFd).1
          · intro fd id named
            rwa [handlerActions, Kernel.exec_io_file _ _ noClose] at named
          · intro id
            rw [handlerActions, Kernel.exec_io_log _ _ noClose, received_append,
              received_handlers laid silent inTable reaches notTaken, List.append_nil]

/-- No peer gets a byte back, and whoever has sent something is disconnected: of what it has
sent the server has read one chunk. -/
theorem never_echoes {world : World} (reached : Reachable (guarded system cleanReuse) world)
    (id : Nat) :
    sent (world.kernel.log id) = [] ∧
      (received (world.kernel.log id)).length ≤ recvBufSize ∧
      (received (world.kernel.log id) ≠ [] → ConnEvent.close ∈ world.kernel.log id) := by
  have cut := reachable_cut reached
  refine ⟨(reachable_silent reached).unsent id, cut.short id, ?_⟩
  intro arrived
  have known : id < world.kernel.accepted := by
    by_contra unknown
    apply arrived
    rw [cut.formed.fresh id (Nat.le_of_not_lt unknown)]
    rfl
  rw [cut.formed.shut id known]
  exact fun fd owner => arrived (cut.nothing fd id owner)

theorem never_echoes_line :
    ∃ world, Reachable (guarded system cleanReuse) world ∧
      received (world.kernel.log 0) = [97, newline] ∧ sent (world.kernel.log 0) = [] ∧
      ConnEvent.close ∈ world.kernel.log 0 := by
  obtain ⟨world, reached, arrived⟩ := exists_reachable_of_run
    (guarded_next_sound cleanReuse next_sound) ⟨3, fun _ => .zero, by decide, rfl⟩
    (connect ++ arrive (.ok [97, newline]))
    (fun world => received (world.kernel.log 0) = [97, newline]) (by decide +kernel)
  obtain ⟨silent, _, closes⟩ := never_echoes reached 0
  exact ⟨world, reached, arrived, silent, closes (by rw [arrived]; simp)⟩

end LinuxSystemPrograms.PollServerV1Mute
