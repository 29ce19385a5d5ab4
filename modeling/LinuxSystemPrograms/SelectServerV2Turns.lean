import LinuxSystemPrograms.SelectServerV2Table

/-!
# Every connection of the second select server for itself

To a connection a run of the server is a sequence of turns. A property of its log and its
buffers that every turn keeps holds of every connection in every run (`Accounts`); what the
other connections do, and which slots and descriptors they get, is dealt with once, here.
-/

namespace LinuxSystemPrograms.SelectServerV2Turns

open LinuxSystemPrograms.EchoBuffers
open LinuxSystemPrograms.EchoClient
open LinuxSystemPrograms.SelectRoster
open LinuxSystemPrograms.SelectServerV2
open LinuxSystemPrograms.SelectServerV2Fidelity
open LinuxSystemPrograms.SelectServerV2Table
open LinuxSystemPrograms.Sockets
open LinuxSystemPrograms.Transition

set_option autoImplicit false

/-- `Good` holds of the log and the buffers of every connection; one that is closed has no
buffers. -/
structure Accounts (Good : List Event → Option Buffers → Prop) (kernel : Kernel Return)
    (roster : Roster) : Prop where
  named : ∀ fd id, kernel.file fd = .conn id → Good (kernel.log id) (roster fd)
  shut : ∀ id, id < kernel.accepted → (∀ fd, kernel.file fd ≠ .conn id) →
    Good (kernel.log id) none

theorem boot_accounts (Good : List Event → Option Buffers → Prop) (serverFd : Fd) :
    Accounts Good (Kernel.boot serverFd) fun _ => none where
  named fd id owner := by
    by_cases same : fd = serverFd <;> simp [Kernel.boot, same] at owner
  shut id bound := absurd bound (Nat.not_lt_zero id)

section Pass

variable {Good : List Event → Option Buffers → Prop} {kernel : Kernel Return} {roster : Roster}

/-- A new connection has an empty log and an empty record. -/
theorem accounts_opened (accounts : Accounts Good kernel roster) (formed : kernel.WellFormed)
    (fresh : Good [] (some Buffers.empty)) {fd : Fd} (unused : kernel.file fd = .closed) :
    Accounts Good (kernel.openConn fd) (Function.update roster fd (some Buffers.empty)) where
  named other id owner := by
    by_cases same : other = fd
    · subst same
      rw [Kernel.open_file_same, File.conn.injEq] at owner
      rw [Function.update_self, Kernel.open_log, ← owner, formed.fresh _ (Nat.le_refl _)]
      exact fresh
    · rw [Kernel.open_file_other kernel same] at owner
      rw [Function.update_of_ne same]
      exact accounts.named other id owner
  shut id bound noFd := by
    have notNew : id ≠ kernel.accepted := by
      rintro rfl
      exact noFd fd (Kernel.open_file_same kernel fd)
    rw [Kernel.open_accepted] at bound
    apply accounts.shut id (by omega)
    intro other owner
    have different : other ≠ fd := by
      rintro rfl
      rw [unused] at owner
      cases owner
    exact noFd other ((Kernel.open_file_other kernel different).trans owner)

/-- A connection that is closed at once. -/
theorem accounts_refused (accounts : Accounts Good kernel roster) (formed : kernel.WellFormed)
    (refused : Good [.close] none) {fd : Fd} (unused : kernel.file fd = .closed) :
    Accounts Good (kernel.exec [.accept fd, .io fd .close]) roster where
  named other id owner := by
    rw [Kernel.refuse_file unused] at owner
    rw [Kernel.refuse_log_other kernel fd (Nat.ne_of_lt (formed.owner other id owner).2)]
    exact accounts.named other id owner
  shut id bound noFd := by
    rw [Kernel.refuse_file unused] at noFd
    rw [Kernel.refuse_eq, Kernel.release_accepted, Kernel.record_accepted,
      Kernel.open_accepted] at bound
    by_cases newest : id = kernel.accepted
    · rw [newest, Kernel.refuse_log_new formed]
      exact refused
    · rw [Kernel.refuse_log_other kernel fd newest]
      exact accounts.shut id (by omega) noFd

/-- A sweep gives every open connection its turn and touches nothing else. -/
theorem accounts_sweep (accounts : Accounts Good kernel roster) (formed : kernel.WellFormed)
    {turn : Fd → Option Buffers → Served} (orderly : ∀ fd entry, Orderly (turn fd entry))
    {fds : List Fd} (nodup : fds.Nodup)
    (members : ∀ fd id, kernel.file fd = .conn id → fd ∈ fds)
    (keeps : ∀ fd log, Good log (roster fd) →
      Good (log ++ (turn fd (roster fd)).2) (turn fd (roster fd)).1) :
    Accounts Good (kernel.exec (sweep turn fds roster).2) (sweep turn fds roster).1 := by
  have noAccept := @sweep_accepts turn fds roster
  have turnOf : ∀ fd id, kernel.file fd = .conn id →
      (kernel.exec (sweep turn fds roster).2).log id = kernel.log id ++ (turn fd (roster fd)).2 ∧
        (kernel.exec (sweep turn fds roster).2).file fd =
          (if ConnEvent.close ∈ (turn fd (roster fd)).2 then .closed else .conn id) := by
    intro fd id owner
    have calls := @sweep_calls turn fds nodup roster fd
    rw [if_pos (members fd id owner)] at calls
    have result := exec_calls owner
      (fun other named => formed.single other fd id named owner) noAccept
      (by rw [calls]; exact (orderly fd (roster fd)).1)
    rwa [calls] at result
  constructor
  · intro fd id owner
    have before := named_of_exec noAccept owner
    rw [(turnOf fd id before).1, sweep_roster nodup, if_pos (members fd id before)]
    exact keeps fd _ (accounts.named fd id before)
  · intro id bound noFd
    rw [exec_accepted noAccept] at bound
    by_cases open_ : ∃ fd, kernel.file fd = .conn id
    · obtain ⟨fd, owner⟩ := open_
      obtain ⟨log, file⟩ := turnOf fd id owner
      have closed : ConnEvent.close ∈ (turn fd (roster fd)).2 := by
        by_contra stillOpen
        rw [if_neg stillOpen] at file
        exact noFd fd file
      have noEntry : (turn fd (roster fd)).1 = none := by
        by_contra entry
        exact (orderly fd (roster fd)).2 (Option.isSome_iff_ne_none.mpr entry) closed
      have kept := keeps fd _ (accounts.named fd id owner)
      rw [noEntry] at kept
      rw [log]
      exact kept
    · have shut := not_exists.mp open_
      rw [(exec_shut noAccept shut).1]
      exact accounts.shut id bound shut

end Pass

section Runs

variable {Good : List Event → Option Buffers → Prop}

/-- What a pass may do to one connection, for the properties that `Good` stands for. -/
def Keeps (Good : List Event → Option Buffers → Prop) (world : World) (round : Round)
    (roster : Roster) : Prop :=
  ∀ fd buffers log, roster fd = some buffers → Good log (some buffers) →
    Good (log ++ (serve sendCode round (select round world.server).readfds
        (select round world.server).writefds fd (some buffers)).2)
      (serve sendCode round (select round world.server).readfds
        (select round world.server).writefds fd (some buffers)).1

theorem accounts_opening {world : World} {roster : Roster}
    (formed : world.kernel.WellFormed) (accounts : Accounts Good world.kernel roster)
    (fresh : Good [] (some Buffers.empty)) (refused : Good [.close] none) {round : Round}
    {accepted : Option Fd} {fds : List Fd}
    (passed : Passed round world.server roster accepted
      (acceptClient round (select round world.server)).2 fds)
    (admitted : world.kernel.Admits (acceptClient round (select round world.server)).2) :
    Accounts Good (world.kernel.exec (acceptClient round (select round world.server)).2)
      (withAccepted roster accepted) := by
  have unused : ∀ fd, .accept fd ∈ (acceptClient round (select round world.server)).2 →
      world.kernel.file fd = .closed := fun fd member => (admitted_accept admitted member).2
  rcases passed.opened.calls with ⟨none, same⟩ | ⟨none, fd, same⟩ | ⟨fd, some, same⟩
  all_goals rw [same] at unused ⊢
  · rw [none]
    exact accounts
  · rw [none]
    exact accounts_refused accounts formed refused (unused fd List.mem_cons_self)
  · rw [some]
    exact accounts_opened accounts formed fresh (unused fd List.mem_cons_self)

/-- One pass: the connection it takes in has no turn in it. -/
theorem next_accounts {world : World} {roster : Roster} (tabled : Tabled world roster)
    (serving : Serving world.server.client world.kernel)
    (accounts : Accounts Good world.kernel roster) (fresh : Good [] (some Buffers.empty))
    (refused : Good [.close] none) {round : Round} (keeps : Keeps Good world round roster)
    (admitted : world.kernel.Admits (serveRound round world.server).2) :
    ∃ rosterAfter, Tabled (world.next round) rosterAfter ∧
      Accounts Good (world.next round).kernel rosterAfter := by
  have opening := admitted_opening admitted
  obtain ⟨accepted, fds, passed⟩ := tabled_passed tabled serving opening
  have accountsOpening := accounts_opening serving.formed accounts fresh refused passed opening
  have servingOpening : Serving (acceptClient round (select round world.server)).1.client
      (world.kernel.exec (acceptClient round (select round world.server)).2) :=
    accept_keeps round serving opening
  refine ⟨_, tabled_next tabled passed admitted, ?_⟩
  rw [World.next, passed.calls, Kernel.exec_append]
  apply accounts_sweep accountsOpening servingOpening.formed
    (fun fd entry => orderly_serve _ _ _ _ fd entry) passed.nodup
  · intro fd id owner
    obtain ⟨slot, slotFd⟩ := servingOpening.owned fd id owner
    have valid := (servingOpening.formed.owner fd id owner).1
    rw [passed.members, ← slotFd]
    apply holds_present passed.opened.represents.holds
    rw [slotFd]
    exact fd_ne_of_valid valid
  · intro fd log good
    rw [with_accepted_apply] at good ⊢
    by_cases isNew : accepted = some fd
    · obtain ⟨_, unread, unwritten⟩ := passed_fresh tabled passed isNew
      rw [if_pos isNew, serve_unready unread unwritten, List.append_nil]
      rwa [if_pos isNew] at good
    · rw [if_neg isNew] at good ⊢
      cases entry : roster fd with
      | none =>
          rw [serve_none, List.append_nil]
          rwa [entry] at good
      | some buffers =>
          rw [entry] at good
          exact keeps fd buffers log entry good

/-- A property of single connections that every allowed pass keeps holds in every run of
allowed passes. -/
theorem reachable_accounts {Allowed : World → Selected → Prop}
    (fresh : Good [] (some Buffers.empty)) (refused : Good [.close] none)
    (keeps : ∀ world roster round, Tabled world roster → Allowed world (.ready round) →
      Keeps Good world round roster)
    {world : World} (reached : Reachable (guarded system Allowed) world) :
    ∃ roster, Tabled world roster ∧ Accounts Good world.kernel roster := by
  apply reachable_invariant _ _ reached
  · rintro _ ⟨serverFd, _, rfl⟩
    exact ⟨_, boot_tabled serverFd, boot_accounts Good serverFd⟩
  · rintro world selected after reachedBefore ⟨roster, tabled, accounts⟩ ⟨allowed, stepped⟩
    rcases World.step_cases stepped with rfl | ⟨round, rfl, rfl, admitted⟩
    · exact ⟨roster, tabled, accounts⟩
    · exact next_accounts tabled (reachable_serving (reachable_of_guarded reachedBefore)) accounts
        fresh refused (keeps world roster round tabled allowed) admitted

end Runs

end LinuxSystemPrograms.SelectServerV2Turns
