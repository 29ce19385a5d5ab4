import LinuxSystemPrograms.SelectServerV1Table
import LinuxSystemPrograms.SelectServerV2Table
import Mathlib.Data.Fintype.Card

/-!
# The two select servers do the same

Both servers are fed the same rounds. Each of them refines the roster, and as long as the
rounds are fair to the first server (`Fair`) it is the same roster: what a pass does to it is
`passRoster` for both, whatever the order in which their loops come to the descriptors.
-/

namespace LinuxSystemPrograms.SelectServersAgree

open LinuxSystemPrograms.EchoBuffers
open LinuxSystemPrograms.EchoClient
open LinuxSystemPrograms.SelectRoster
open LinuxSystemPrograms.SelectServerV2 (Round Selected)
open LinuxSystemPrograms.SelectServerV2Fidelity (Serving)
open LinuxSystemPrograms.SelectServerV2Table (Tabled)
open LinuxSystemPrograms.Sockets
open LinuxSystemPrograms.Transition

set_option autoImplicit false

structure Pair where
  one : SelectServerV1.World
  two : SelectServerV2.World

def boot (serverFd : Fd) : Pair where
  one := ⟨SelectServerV1.boot serverFd, Kernel.boot serverFd⟩
  two := ⟨SelectServerV2.boot serverFd, Kernel.boot serverFd⟩

/-- A descriptor that is accepted fits into the first server's table and is open in neither
process, `set_nonblock` succeeds, and `send` takes at least one byte or fails. -/
structure Fair (pair : Pair) (round : Round) : Prop where
  accept : round.readable pair.two.server.serverFd = true → ∀ fd, round.accept = .ok fd →
    0 ≤ fd ∧ fd < SelectServerV1.maxConnections ∧ pair.one.kernel.file fd = .closed ∧
      pair.two.kernel.file fd = .closed
  nonblock : round.nonblock = true
  send : ∀ fd, round.send fd ≠ .ok 0

def next (pair : Pair) (selected : Selected) : Option Pair :=
  (pair.one.next selected).bind fun one =>
    (SelectServerV2.pass pair.two.server selected).map fun passed =>
      ⟨one, passed.1, pair.two.kernel.exec passed.2⟩

def joint : System Pair Selected where
  init pair := ∃ serverFd, 0 ≤ serverFd ∧ pair = boot serverFd
  step pair selected after :=
    (∀ round, selected = .ready round → Fair pair round) ∧ next pair selected = some after

structure Sharing (pair : Pair) (roster : Roster) : Prop where
  one : SelectServerV1Table.Represents pair.one.server roster
  sets : pair.one.server.readfds = pair.one.server.masterRead ∧
    pair.one.server.writefds = pair.one.server.masterWrite
  two : Tabled pair.two roster
  serving : Serving pair.two.server.client pair.two.kernel
  serverFd : 0 ≤ pair.one.server.serverFd ∧
    pair.one.server.serverFd = pair.two.server.serverFd
  maxFd : pair.one.server.maxFds = pair.two.server.maxFd

section Round

variable {pair : Pair} {roster : Roster} {round : Round}

theorem master_read_eq (sharing : Sharing pair roster) :
    pair.one.server.masterRead = pair.two.server.masterRead := by
  funext fd
  rw [sharing.one.watches.read, sharing.two.represents.watches.read, sharing.serverFd.2]

theorem master_write_eq (sharing : Sharing pair roster) :
    pair.one.server.masterWrite = pair.two.server.masterWrite := by
  funext fd
  rw [sharing.one.watches.write, sharing.two.represents.watches.write]

/-- `select` is given the same sets, so it reports the same. -/
theorem select_eq (sharing : Sharing pair roster) (round : Round) :
    (SelectServerV1.select round pair.one.server).readfds =
        (SelectServerV2.select round pair.two.server).readfds ∧
      (SelectServerV1.select round pair.one.server).writefds =
        (SelectServerV2.select round pair.two.server).writefds := by
  simp only [SelectServerV1.select, SelectServerV2.select, sharing.sets.1, sharing.sets.2,
    sharing.two.sets.1, sharing.two.sets.2, master_read_eq sharing, master_write_eq sharing,
    sharing.maxFd, and_self]

/-- The second server always finds a slot: ten descriptors do not fill 256 of them. -/
theorem slot_free (sharing : Sharing pair roster) :
    ∃ slot, (pair.two.server.client slot).clientFd = -1 := by
  by_contra noSlot
  have full := not_exists.mp noSlot
  have holds := sharing.two.represents.holds
  have owner : ∀ slot, ∃ index, (pair.two.server.client slot).clientFd =
      SelectServerV1Table.fdOf index := fun slot =>
    sharing.one.holds.owned _ (SelectServerV2Table.holds_present holds (full slot))
  choose index indexFd using owner
  have injective : Function.Injective index := by
    intro slot other same
    exact holds.distinct slot other (full slot) (by rw [indexFd, indexFd, same])
  have fewer := Fintype.card_le_of_injective index injective
  rw [Fintype.card_fin, Fintype.card_fin] at fewer
  exact absurd fewer (by decide)

/-- In a fair round the second server takes in whatever `accept` returns. -/
theorem fair_accept (sharing : Sharing pair roster) (fair : Fair pair round) :
    (SelectServerV2.acceptClient round (SelectServerV2.select round pair.two.server)).2 =
        (taken round ((SelectServerV2.select round pair.two.server).readfds
          pair.two.server.serverFd)).toList.map .accept ∧
      pair.two.kernel.Admits
        (SelectServerV2.acceptClient round (SelectServerV2.select round pair.two.server)).2 := by
  have reported : (SelectServerV2.select round pair.two.server).readfds
      pair.two.server.serverFd = true → round.readable pair.two.server.serverFd = true := by
    intro ready
    simp only [SelectServerV2.select, Bool.and_eq_true] at ready
    exact ready.1.2
  obtain ⟨free, freeFd⟩ := slot_free sharing
  rcases SelectServerV2.accept_cases round (SelectServerV2.select round pair.two.server) with
    ⟨idle | ⟨reason, failed⟩, same⟩ | ⟨fd, _, _, refused, _⟩ | ⟨fd, slot, result, ready, _, same⟩
  · rw [SelectServerV2.select_server_fd] at idle
    rw [same, taken, idle]
    exact ⟨rfl, trivial⟩
  · rw [same, taken, failed]
    constructor
    · split_ifs <;> rfl
    · trivial
  · rcases refused with blocking | full
    · rw [fair.nonblock] at blocking
      cases blocking
    · exact absurd freeFd (full free)
  · rw [SelectServerV2.select_server_fd] at ready
    obtain ⟨valid, _, _, closed⟩ := fair.accept (reported ready) fd result
    rw [same, taken, ready, result]
    exact ⟨rfl, valid, closed, trivial⟩

theorem taken_of_calls {accepted taken : Option Fd} {opening : List (Action Return)}
    (same : opening = taken.toList.map .accept)
    (calls : (accepted = none ∧ opening = []) ∨
      (accepted = none ∧ ∃ fd, opening = [.accept fd, .io fd .close]) ∨
      ∃ fd, accepted = some fd ∧ opening = [.accept fd]) : accepted = taken := by
  subst same
  cases taken with
  | none =>
      rcases calls with ⟨none, _⟩ | ⟨_, fd, refused⟩ | ⟨fd, _, opened⟩
      · exact none
      · cases refused
      · cases opened
  | some fd =>
      rcases calls with ⟨_, idle⟩ | ⟨_, other, refused⟩ | ⟨other, isOther, opened⟩
      · cases idle
      · cases refused
      · cases opened
        exact isOther

/-- The second server's half of a fair round. -/
theorem two_round (sharing : Sharing pair roster) (fair : Fair pair round) {accepted : Option Fd}
    (acceptedEq : accepted = taken round ((SelectServerV2.select round pair.two.server).readfds
      pair.two.server.serverFd)) :
    pair.two.kernel.Admits (SelectServerV2.serveRound round pair.two.server).2 ∧
      Tabled (pair.two.next round) (passRoster SelectServerV2.sendCode round
        (SelectServerV2.select round pair.two.server).readfds
        (SelectServerV2.select round pair.two.server).writefds accepted roster) ∧
      (∀ fd, callsOn fd (SelectServerV2.serveRound round pair.two.server).2 =
        (serve SelectServerV2.sendCode round
          (SelectServerV2.select round pair.two.server).readfds
          (SelectServerV2.select round pair.two.server).writefds fd (roster fd)).2) ∧
      accepts (SelectServerV2.serveRound round pair.two.server).2 = accepted.toList ∧
      (pair.two.next round).server.serverFd = pair.two.server.serverFd ∧
      (pair.two.next round).server.maxFd =
        accepted.elim pair.two.server.maxFd (max pair.two.server.maxFd) := by
  obtain ⟨opening, admitted⟩ := fair_accept sharing fair
  obtain ⟨opened, fds, passed⟩ :=
    SelectServerV2Table.tabled_passed sharing.two sharing.serving admitted
  obtain rfl : opened = accepted := by
    rw [acceptedEq]
    exact taken_of_calls opening passed.opened.calls
  rw [← acceptedEq] at opening
  have admittedRound : pair.two.kernel.Admits
      (SelectServerV2.serveRound round pair.two.server).2 := by
    rw [passed.calls, Kernel.admits_append]
    exact ⟨admitted, admits_of_no_accept (sweep_accepts _ _) _⟩
  obtain ⟨sweptRoster, sweptCalls⟩ :=
    @sweep_pass SelectServerV2.sendCode round _ _ fds roster opened passed.nodup passed.members
      fun fd same => SelectServerV2Table.passed_fresh sharing.two passed same
  have tabled := SelectServerV2Table.tabled_next sharing.two passed admittedRound
  rw [sweptRoster] at tabled
  refine ⟨admittedRound, tabled, ?_, ?_, passed.listener, passed.maxFd⟩
  · intro fd
    rw [passed.calls, calls_on_append, opening, calls_on_accept, List.nil_append, sweptCalls]
  · rw [passed.calls, accepts_append, opening, accepts_accept, sweep_accepts, List.append_nil]

/-- A fair round: the first server survives it, makes the same calls, and the servers hold the
same connections after it. -/
theorem round_shared (sharing : Sharing pair roster) (fair : Fair pair round) :
    ∃ after actions rosterAfter,
      SelectServerV1.serveRound round pair.one.server = some (after, actions) ∧
      accepts actions = accepts (SelectServerV2.serveRound round pair.two.server).2 ∧
      (∀ fd, callsOn fd actions =
        callsOn fd (SelectServerV2.serveRound round pair.two.server).2) ∧
      Sharing ⟨⟨after, pair.one.kernel.exec actions⟩, pair.two.next round⟩ rosterAfter := by
  obtain ⟨readEq, writeEq⟩ := select_eq sharing round
  have entering : (SelectServerV1.select round pair.one.server).readfds
      pair.one.server.serverFd = true → ∀ fd, round.accept = .ok fd →
        0 ≤ fd ∧ fd < SelectServerV1.maxConnections ∧ fd ≠ pair.one.server.serverFd ∧
          roster fd = none := by
    intro ready fd result
    simp only [SelectServerV1.select, Bool.and_eq_true] at ready
    rw [sharing.serverFd.2] at ready ⊢
    obtain ⟨valid, small, _, closed⟩ := fair.accept ready.1.2 fd result
    obtain ⟨_, notServer, unused⟩ :=
      SelectServerV2Table.tabled_unused sharing.two sharing.serving valid closed
    exact ⟨valid, small, notServer, unused⟩
  obtain ⟨after, actions, result, passed⟩ := SelectServerV1Table.serve_round_passed sharing.one
    sharing.sets sharing.serverFd.1 entering
  have codes : serve SelectServerV1.sendCode round = serve SelectServerV2.sendCode round := by
    funext readfds writefds
    apply serve_code_congr _ fair.send
    intro exit notZero
    cases exit <;> first | rfl | exact absurd rfl notZero
  obtain ⟨admitted, tabled, calls, taking, listener, maxFd⟩ := two_round sharing fair rfl
  rw [← readEq, ← writeEq, ← sharing.serverFd.2] at tabled
  rw [← readEq, ← writeEq, ← codes] at calls
  rw [← readEq, ← sharing.serverFd.2] at taking maxFd
  have rosters : passRoster SelectServerV1.sendCode round = passRoster SelectServerV2.sendCode round := by
    funext readfds writefds accepted roster fd
    rw [passRoster, passRoster, codes]
  rw [← rosters] at tabled
  have shared : Sharing ⟨⟨after, pair.one.kernel.exec actions⟩, pair.two.next round⟩ _ :=
    { one := passed.represents
      sets := passed.sets
      two := tabled
      serving := SelectServerV2Fidelity.serve_round_keeps round sharing.serving admitted
      serverFd := by
        rw [passed.bounds.1, listener]
        exact sharing.serverFd
      maxFd := by
        rw [passed.bounds.2, maxFd, sharing.maxFd] }
  exact ⟨after, actions, _, result, passed.accepts.trans taking.symm,
    fun fd => (passed.calls fd).trans (calls fd).symm, shared⟩

end Round

/-! ## Every run -/

theorem boot_sharing {serverFd : Fd} (valid : 0 ≤ serverFd) :
    Sharing (boot serverFd) fun _ => none where
  one :=
    { holds :=
        { entry := fun _ => Or.inr ⟨rfl, rfl, init_contents⟩
          owned := fun _ isSome => Bool.noConfusion isSome }
      watches := watches_listener serverFd }
  sets := ⟨rfl, rfl⟩
  two := SelectServerV2Table.boot_tabled serverFd
  serving := SelectServerV2Fidelity.boot_serving serverFd
  serverFd := ⟨valid, rfl⟩
  maxFd := rfl

theorem next_ready {pair : Pair} {round : Round} {after : SelectServerV1.Server}
    {actions : List (Action Return)}
    (result : SelectServerV1.serveRound round pair.one.server = some (after, actions)) :
    next pair (.ready round) =
      some ⟨⟨after, pair.one.kernel.exec actions⟩, pair.two.next round⟩ := by
  simp only [next, SelectServerV1.World.next, SelectServerV1.pass, result, Option.map_some,
    Option.bind_some, SelectServerV2.pass, SelectServerV2.World.next]

theorem step_sharing {pair after : Pair} {roster : Roster} {selected : Selected}
    (sharing : Sharing pair roster) (stepped : joint.step pair selected after) :
    ∃ rosterAfter, Sharing after rosterAfter := by
  obtain ⟨fair, result⟩ := stepped
  cases selected with
  | interrupted =>
      have same : some pair = some after := result
      cases same
      exact ⟨roster, sharing⟩
  | failed => cases result
  | ready round =>
      obtain ⟨served, actions, rosterAfter, passed, _, _, shared⟩ :=
        round_shared sharing (fair round rfl)
      rw [next_ready passed, Option.some.injEq] at result
      rw [← result]
      exact ⟨rosterAfter, shared⟩

theorem reachable_sharing {pair : Pair} (reached : Reachable joint pair) :
    ∃ roster, Sharing pair roster := by
  apply reachable_invariant _ _ reached
  · rintro _ ⟨serverFd, valid, rfl⟩
    exact ⟨_, boot_sharing valid⟩
  · rintro pair selected after _ ⟨roster, sharing⟩ stepped
    exact step_sharing sharing stepped

/-- Equal cursors, and equal bytes below them. -/
def SameBuffers (first second : Client) : Prop :=
  first.used = second.used ∧ first.part = second.part ∧ first.sendLen = second.sendLen ∧
    first.sendOffset = second.sendOffset ∧ written first = written second

/-- What the two servers have in common at every call of `select`. -/
structure Agree (one : SelectServerV1.Server) (two : SelectServerV2.Server) : Prop where
  fds : ∀ fd, fd ≠ -1 →
    ((∃ index, (one.client index).clientFd = fd) ↔ ∃ slot, (two.client slot).clientFd = fd)
  masterRead : one.masterRead = two.masterRead
  masterWrite : one.masterWrite = two.masterWrite
  maxFd : one.maxFds = two.maxFd
  buffers : ∀ index slot, (two.client slot).clientFd = SelectServerV1Table.fdOf index →
    SameBuffers (one.client index) (two.client slot)

theorem sharing_agree {pair : Pair} {roster : Roster} (sharing : Sharing pair roster) :
    Agree pair.one.server pair.two.server where
  fds fd valid := by
    constructor
    · rintro ⟨index, indexFd⟩
      rcases sharing.one.holds.entry index with ⟨same, entry⟩ | ⟨free, _⟩
      · rw [← same, indexFd] at entry
        obtain ⟨_, slot, slotFd⟩ := sharing.two.represents.holds.owned fd (by rw [entry]; rfl)
        exact ⟨slot, slotFd⟩
      · exact absurd (indexFd.symm.trans free) valid
    · rintro ⟨slot, slotFd⟩
      have present := SelectServerV2Table.holds_present sharing.two.represents.holds
        (by rwa [slotFd])
      rw [slotFd] at present
      obtain ⟨index, same⟩ := sharing.one.holds.owned fd present
      rw [same] at present
      exact ⟨index, (SelectServerV1Table.holds_busy sharing.one.holds present).1.trans same.symm⟩
  masterRead := master_read_eq sharing
  masterWrite := master_write_eq sharing
  maxFd := sharing.maxFd
  buffers index slot slotFd := by
    have busy : (pair.two.server.client slot).clientFd ≠ -1 := by
      rw [slotFd]
      exact SelectServerV1Table.fd_of_ne index
    have two := sharing.two.represents.holds.busy slot busy
    rw [slotFd] at two
    have one := (SelectServerV1Table.holds_busy sharing.one.holds (by rw [two]; rfl)).2
    exact cursors_of_contents (Option.some.inj (one.symm.trans two))

/-- Fed the same fair rounds, the two select servers agree at every call of `select`, and in
the round that follows they make the same calls on every descriptor. -/
theorem select_servers_agree {pair : Pair} (reached : Reachable joint pair) :
    Agree pair.one.server pair.two.server ∧
      ∀ round, Fair pair round → ∃ after actions,
        SelectServerV1.serveRound round pair.one.server = some (after, actions) ∧
        accepts actions = accepts (SelectServerV2.serveRound round pair.two.server).2 ∧
        ∀ fd, callsOn fd actions =
          callsOn fd (SelectServerV2.serveRound round pair.two.server).2 := by
  obtain ⟨roster, sharing⟩ := reachable_sharing reached
  constructor
  · exact sharing_agree sharing
  · intro round fair
    obtain ⟨after, actions, _, result, taking, calls, _⟩ := round_shared sharing fair
    exact ⟨after, actions, result, taking, calls⟩

def Fresh (pair : Pair) (round : Round) : Prop :=
  round.readable pair.two.server.serverFd = true → ∀ fd ∈ round.accept.toOption,
    0 ≤ fd ∧ fd < SelectServerV1.maxConnections ∧ pair.one.kernel.file fd = .closed ∧
      pair.two.kernel.file fd = .closed

instance (pair : Pair) (round : Round) : Decidable (Fresh pair round) :=
  inferInstanceAs (Decidable (_ → _))

/-- `none` is a round that is not fair. -/
def freshNext (pair : Pair) (round : Round) : Option Pair :=
  if Fresh pair round then next pair (.ready round) else none

theorem reachable_rounds {rounds : List Round} (steady : ∀ round ∈ rounds,
      round.nonblock = true ∧ ∀ fd, round.send fd ≠ .ok 0)
    {pair after : Pair} (reached : Reachable joint pair)
    (result : run freshNext pair rounds = some after) : Reachable joint after := by
  induction rounds generalizing pair with
  | nil =>
      cases result
      exact reached
  | cons round rest ih =>
      obtain ⟨middle, stepped, further⟩ := Option.bind_eq_some_iff.mp result
      obtain ⟨fresh, result⟩ := Option.ite_none_right_eq_some.mp stepped
      obtain ⟨nonblock, send⟩ := steady round List.mem_cons_self
      have fair : Fair pair round :=
        { accept := fun ready fd granted => fresh ready fd (by rw [granted]; rfl)
          nonblock := nonblock
          send := send }
      apply ih fun other member => steady other (List.mem_cons_of_mem _ member)
      · refine .next (.ready round) reached ⟨?_, result⟩
        intro _ same
        cases same
        exact fair
      · exact further

/-- Both servers accept descriptor 5, read a line and more, and send one byte of it. -/
theorem select_servers_agree_one_byte :
    ∃ pair, Reachable joint pair ∧ received (pair.one.kernel.log 0) = [97, newline, 98] ∧
      sent (pair.one.kernel.log 0) = [97] ∧ sent (pair.two.kernel.log 0) = [97] ∧
      Agree pair.one.server pair.two.server := by
  have result : ((run freshNext (boot 3) SelectServerV2Fidelity.oneByteBack).any fun pair =>
      received (pair.one.kernel.log 0) = [97, newline, 98] ∧
        sent (pair.one.kernel.log 0) = [97] ∧ sent (pair.two.kernel.log 0) = [97]) = true := by
    decide +kernel
  obtain ⟨pair, stepped, bytes⟩ := (Option.any_eq_true _ _).mp result
  obtain ⟨arrived, one, two⟩ := of_decide_eq_true bytes
  have reached : Reachable joint pair := by
    apply reachable_rounds _ (.start ⟨3, by decide, rfl⟩) stepped
    intro round member
    simp only [SelectServerV2Fidelity.oneByteBack, List.mem_cons, List.not_mem_nil, or_false]
      at member
    rcases member with rfl | rfl | rfl
    all_goals exact ⟨rfl, fun _ zero => by cases zero⟩
  exact ⟨pair, reached, arrived, one, two, (select_servers_agree reached).1⟩

end LinuxSystemPrograms.SelectServersAgree
