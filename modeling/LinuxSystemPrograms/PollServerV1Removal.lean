import LinuxSystemPrograms.PollServerV1Table

/-!
# The slot that `remove_conn` gives up

`remove_conn` moves the last entry of the table to the place of the removed one and shrinks
the table by one. Seen as a multiset the table loses exactly that connection. The slot that
leaves the table is not the one that is reset: the assignments are made one slot behind it.
-/

namespace LinuxSystemPrograms.PollServerV1Removal

open LinuxSystemPrograms.CheckedArray
open LinuxSystemPrograms.ConnectionAccount
open LinuxSystemPrograms.EchoClient
open LinuxSystemPrograms.PollServerV1
open LinuxSystemPrograms.PollServerV1Table
open LinuxSystemPrograms.Sockets
open LinuxSystemPrograms.Transition

set_option autoImplicit false

/-- The connections of the table: each `pollfd` with the `Client` beside it. -/
def connections (tables : Tables) (activeConns : Int) : Multiset (PollFd × Client) :=
  cells (fun k => (tables.fds.cell k, tables.client.cell (k - 1))) 1 activeConns

/-- `fds[active_conns - 1]` and `c[active_conns - 2]` are as `_init_pollfd` and `_init_client`
leave them. -/
def Vacated (tables : Tables) (activeConns : Int) : Prop :=
  (tables.fds.cell (activeConns - 1)).fd = -1 ∧
    (tables.fds.cell (activeConns - 1)).events = .zero ∧
    (tables.client.cell (activeConns - 2)).clientFd = -1 ∧
    (tables.client.cell (activeConns - 2)).used = 0 ∧
    (tables.client.cell (activeConns - 2)).sendLen = 0 ∧
    (tables.client.cell (activeConns - 2)).sendOffset = 0

instance (tables : Tables) (activeConns : Int) : Decidable (Vacated tables activeConns) :=
  inferInstanceAs (Decidable (_ ∧ _))

/-- `remove_conn` stays inside the arrays and returns a table without the `i`-th connection,
in which every other one is as it was. -/
def DeletesOne (i : Int) (tables : Tables) (activeConns : Int) : Prop :=
  ∃ after, removeConn i tables activeConns =
      some (after, activeConns - 1, [.io (tables.fds.cell i).fd .close]) ∧
    connections tables activeConns =
      (tables.fds.cell i, tables.client.cell (i - 1)) ::ₘ connections after (activeConns - 1)

/-- Besides, the slot that the next accept will use is reset. -/
def DeletesCleanly (i : Int) (tables : Tables) (activeConns : Int) : Prop :=
  ∃ after, removeConn i tables activeConns =
      some (after, activeConns - 1, [.io (tables.fds.cell i).fd .close]) ∧
    connections tables activeConns =
      (tables.fds.cell i, tables.client.cell (i - 1)) ::ₘ connections after (activeConns - 1) ∧
    Vacated after activeConns

theorem removed_connections {i : Int} (tables : Tables) {activeConns : Int} (from1 : 1 ≤ i)
    (inTable : i < activeConns) :
    connections tables activeConns = (tables.fds.cell i, tables.client.cell (i - 1)) ::ₘ
      connections (removed i tables activeConns) (activeConns - 1) := by
  apply cells_move_last from1 inTable
  intro k _ inside
  have entry : k ≠ activeConns := by omega
  have record : k - 1 ≠ activeConns - 1 := by omega
  rw [removed_fds tables entry, removed_client tables record]
  have lastRecord : activeConns - 1 - 1 = activeConns - 2 := by omega
  by_cases own : k = i
  · rw [if_pos own, if_pos own, if_pos (by omega), lastRecord]
  · rw [if_neg own, if_neg own, if_neg (by omega)]

/-- The last entry and its record are copied away and stay where they were. -/
theorem removed_last {i : Int} (tables : Tables) (activeConns : Int) :
    (removed i tables activeConns).fds.cell (activeConns - 1) =
        tables.fds.cell (activeConns - 1) ∧
      (removed i tables activeConns).client.cell (activeConns - 2) =
        tables.client.cell (activeConns - 2) := by
  have entry : activeConns - 1 ≠ activeConns := by omega
  have record : activeConns - 2 ≠ activeConns - 1 := by omega
  rw [removed_fds tables entry, removed_client tables record]
  exact ⟨ite_self _, ite_self _⟩

theorem removed_vacated {i : Int} (tables : Tables) (activeConns : Int) :
    Vacated (removed i tables activeConns) activeConns ↔ Vacated tables activeConns := by
  obtain ⟨entry, record⟩ := removed_last (i := i) tables activeConns
  rw [Vacated, Vacated, entry, record]

theorem remove_conn_removed {i : Int} (tables : Tables) {activeConns : Int} (from1 : 1 ≤ i)
    (inTable : i < activeConns) (bounded : activeConns ≤ maxConnections) :
    removeConn i tables activeConns =
      some (removed i tables activeConns, activeConns - 1,
        [.io (tables.fds.cell i).fd .close]) := by
  rw [remove_conn_eq (by omega) inTable (by omega), if_pos ⟨bounded, Or.inl from1⟩]

theorem deletes_one {i : Int} (tables : Tables) {activeConns : Int} (from1 : 1 ≤ i)
    (inTable : i < activeConns) (bounded : activeConns ≤ maxConnections) :
    DeletesOne i tables activeConns :=
  ⟨_, remove_conn_removed tables from1 inTable bounded, removed_connections tables from1 inTable⟩

theorem vacated_of_deletes_cleanly {i : Int} {tables : Tables} {activeConns : Int}
    (from1 : 1 ≤ i) (inTable : i < activeConns) (bounded : activeConns ≤ maxConnections)
    (cleanly : DeletesCleanly i tables activeConns) : Vacated tables activeConns := by
  obtain ⟨after, returned, _, vacated⟩ := cleanly
  rw [remove_conn_removed tables from1 inTable bounded, Option.some.injEq, Prod.mk.injEq]
    at returned
  rw [← returned.1] at vacated
  exact (removed_vacated tables activeConns).mp vacated

/-- The connection that is removed is always the only one that goes; the slot that becomes free
is clean only if it has been clean before. -/
theorem deletes_cleanly_iff {i : Int} (tables : Tables) {activeConns : Int} (from1 : 1 ≤ i)
    (inTable : i < activeConns) (bounded : activeConns ≤ maxConnections) :
    DeletesOne i tables activeConns ∧
      (DeletesCleanly i tables activeConns ↔ Vacated tables activeConns) := by
  constructor
  · exact deletes_one tables from1 inTable bounded
  constructor
  · exact vacated_of_deletes_cleanly from1 inTable bounded
  · intro vacated
    exact ⟨_, remove_conn_removed tables from1 inTable bounded,
      removed_connections tables from1 inTable, (removed_vacated tables activeConns).mpr vacated⟩

/-- Descriptor `4 + k` in entry `k`, and the same in the record beside it. -/
def lined : Tables where
  fds := ⟨fun k => ⟨4 + k, .read, .zero⟩⟩
  client := ⟨fun k => { Client.init with clientFd := 5 + k }⟩

theorem deletes_cleanly_iff_lined :
    DeletesOne 1 lined 3 ∧ (DeletesCleanly 1 lined 3 ↔ Vacated lined 3) :=
  deletes_cleanly_iff lined (by decide) (by decide) (by decide)

/-- Descriptor 6 moves from entry 2 to entry 1, and entry 2 still has it. -/
theorem moved_entry_not_reset : ¬ ∀ (i : Int) (tables : Tables) (activeConns : Int),
    2 ≤ activeConns → activeConns ≤ maxConnections → 1 ≤ i → i < activeConns →
      DeletesCleanly i tables activeConns := by
  intro always
  have cleanly := always 1 lined 3 (by decide) (by decide) (by decide) (by decide)
  have vacated := vacated_of_deletes_cleanly (by decide) (by decide) (by decide) cleanly
  exact absurd vacated.1 (by decide)

/-! ## In a run -/

def Occupied (server : Server) : Prop := ∀ k, Seated server k → 0 ≤ (server.entry k).fd

theorem pass_occupied {answers : Answers} {i : Int} {server : Server} {passed : Passed}
    (occupied : Occupied server) (inTable : i < server.activeConns)
    (granted : ∀ fd ∈ answers.accept.toOption, 0 ≤ fd) (pass : Pass answers i server passed) :
    Occupied passed.server := by
  cases pass with
  | refused => exact occupied
  | @accepted clientFd _ result _ =>
      intro k seated
      by_cases newest : k = server.activeConns
      · subst newest
        rw [accepted_entry_new]
        exact granted clientFd (by rw [result]; rfl)
      · rw [accepted_entry_old clientFd server newest]
        have bounds := seated.2
        rw [accepted_active] at bounds
        exact occupied k ⟨seated.1, by omega⟩
  | removed _ inner _ _ served =>
      intro k seated
      have bounds : k < server.activeConns := seated.2
      rw [Server.entry, removed_fd served (by omega)]
      exact occupied _ (origin_range inner inTable seated.1 bounds)
  | hungUp _ _ _ _ removable served =>
      intro k seated
      have bounds : k < server.activeConns - 1 := seated.2
      have inner : 1 ≤ i := removable.2.resolve_right (by have := seated.1; omega)
      rw [Server.entry, removed_fd served (by omega)]
      exact occupied _ (origin_range inner inTable seated.1 (by omega))
  | kept _ _ _ _ served =>
      intro k seated
      rw [Server.entry, served.kept.fd]
      exact occupied k seated

theorem reachable_occupied {world : World} (reached : Reachable system world) :
    Occupied world.server := by
  apply reachable_invariant _ _ reached
  · rintro _ ⟨serverFd, stack, _, rfl⟩
    exact fun k seated => absurd seated (boot_not_seated serverFd stack k)
  · intro world label after prior occupied taken
    rcases step_cases taken with
      ⟨report, rfl, _, rfl⟩ | ⟨rfl, rfl⟩ | ⟨answers, i, passed, rfl, atI, result, rfl⟩
    · intro k seated
      rw [World.afterPoll, polled_fd]
      exact occupied k seated
    · exact occupied
    · obtain ⟨from0, inTable, bounded⟩ := reachable_cursor prior atI
      exact pass_occupied occupied inTable (fun fd member => (taken.1.1 fd member).1)
        (body_pass from0 inTable bounded result)

/-- No table of a run meets the condition: no removal leaves a clean slot behind. -/
theorem reachable_not_vacated {world : World} (reached : Reachable system world)
    (connected : 2 ≤ world.server.activeConns) :
    ¬ Vacated world.server.tables world.server.activeConns := by
  intro vacated
  have seated : Seated world.server (world.server.activeConns - 1) := ⟨by omega, by omega⟩
  have occupied := reachable_occupied reached _ seated
  rw [Server.entry, vacated.1] at occupied
  exact absurd occupied (by decide)

end LinuxSystemPrograms.PollServerV1Removal
