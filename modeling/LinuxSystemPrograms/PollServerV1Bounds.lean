import LinuxSystemPrograms.PollServerV1Table

/-!
# The indices of the poll server

Neither `accept` nor `remove_conn` looks at the size of the arrays. `roomy` is the part of
the runs in which they need not, and `full_table` is a run that ends outside.
-/

namespace LinuxSystemPrograms.PollServerV1Bounds

open LinuxSystemPrograms.CheckedArray
open LinuxSystemPrograms.EchoClient
open LinuxSystemPrograms.PollServerV1
open LinuxSystemPrograms.PollServerV1Table
open LinuxSystemPrograms.Sockets
open LinuxSystemPrograms.Transition

set_option autoImplicit false

/-- A connection is accepted or removed only while `active_conns` is at most
`MAX_CONNECTIONS`, and the listening socket is never removed. -/
def roomy (world : World) : Label → Prop
  | .body answers => ∀ i ∈ world.cursor,
      (Accepts i world.server → answers.accept.toOption.isSome = true →
        world.server.activeConns ≤ maxConnections) ∧
      (¬ Accepts i world.server →
        ((world.server.entry i).revents.pollin = true ∧
            Fits (world.server.record i) (recv recvBufSize answers.recv) ∨
          (world.server.entry i).revents.down = true) →
        1 ≤ i ∧ world.server.activeConns ≤ maxConnections)
  | _ => True

instance (world : World) : (label : Label) → Decidable (roomy world label)
  | .poll _ => isTrue trivial
  | .pollFailed => isTrue trivial
  | .body _ => inferInstanceAs (Decidable (∀ i ∈ world.cursor, _))

/-- The listening socket stays in the table, and is never reported writable. -/
structure Bounded (world : World) : Prop where
  started : 1 ≤ world.server.activeConns
  asked : (world.server.entry 0).events.pollout = false
  reported : world.cursor ≠ none → (world.server.entry 0).revents.pollout = false

theorem boot_bounded (serverFd : Fd) (stack : Int → Events) : Bounded (boot serverFd stack) where
  started := Int.le_refl 1
  asked := congrArg (fun entry => entry.events.pollout) (CArray.put_same (initPollfd stack) 0 _)
  reported midway := absurd rfl midway

theorem bounded_polled {world : World} (bounded : Bounded world) {report : Int → Events}
    (honest : Honest world (.poll report)) : Bounded (world.afterPoll report) := by
  have listed : world.server.Listed 0 := ⟨Int.le_refl 0, by have := bounded.started; omega⟩
  have entry : (world.afterPoll report).server.entry 0 =
      { world.server.entry 0 with revents := report 0 } := if_pos listed
  obtain ⟨reports, _⟩ := honest 0 listed.1 listed.2
  constructor
  case started => exact bounded.started
  case asked =>
    rw [entry]
    exact bounded.asked
  case reported =>
    intro _
    rw [entry]
    by_contra writable
    have asked := reports.2 (Bool.eq_true_of_not_eq_false writable)
    rw [bounded.asked] at asked
    cases asked

/-- A pass that leaves entry 0 where it is keeps the bounds. -/
theorem bounded_same {world after : World} (bounded : Bounded world) (midway : world.cursor ≠ none)
    (entry : after.server.entry 0 = world.server.entry 0)
    (started : 1 ≤ after.server.activeConns) : Bounded after where
  started := started
  asked := by rw [entry]; exact bounded.asked
  reported _ := by rw [entry]; exact bounded.reported midway

theorem removed_entry_zero {i activeConns : Int} {before tables : Tables} {echo : LineEcho}
    (served : Served i before tables echo) (inner : 1 ≤ i) (inTable : i < activeConns) :
    (removed i tables activeConns).fds.cell 0 = before.fds.cell 0 := by
  rw [removed_fds tables (by omega), if_neg (by omega), served.kept.entry 0 (by omega)]

theorem reachable_bounded {world : World} (reached : Reachable (guarded system roomy) world) :
    Bounded world := by
  apply reachable_good _ _ _ reached
  · exact boot_bounded
  · exact fun world report laid bounded honest => bounded_polled bounded honest
  · intro world answers i passed laid bounded allowed honest atI from0 inTable pass
    have midway : world.cursor ≠ none := by simp [atI]
    have started := bounded.started
    cases pass with
    | refused => exact bounded_same bounded midway rfl started
    | @accepted clientFd accepts granted room =>
        apply bounded_same bounded midway
        · exact accepted_entry_old clientFd world.server (by omega)
        · simp only [World.afterBody, accepted_active]
          omega
    | removed serves inner taken removable served =>
        apply bounded_same bounded midway
        · exact removed_entry_zero served inner inTable
        · exact started
    | hungUp serves reaches notTaken down removable served =>
        have inner := ((allowed i atI).2 serves (Or.inr down)).1
        apply bounded_same bounded midway
        · exact removed_entry_zero served inner inTable
        · simp only [World.afterBody]
          omega
    | kept serves reaches notTaken up served =>
        apply bounded_same bounded midway
        · rcases reaches with inner | ⟨_, rfl⟩
          · exact served.kept.entry 0 (by omega)
          · rfl
        · exact started

theorem body_inside {world : World} {answers : Answers} {i : Int}
    (laid : Laid world.server world.kernel) (bounded : Bounded world) (atI : world.cursor = some i) (from0 : 0 ≤ i)
    (inTable : i < world.server.activeConns) (allowed : roomy world (.body answers)) :
    ∃ passed, body answers i world.server = some passed := by
  obtain ⟨room, removal⟩ := allowed i atI
  apply Option.isSome_iff_exists.mp
  apply body_defined from0 inTable laid.range.2 room
  · intro serves called
    by_contra outer
    have first : i = 0 := by omega
    subst first
    rcases called with readable | writable
    · exact serves ⟨laid.first bounded.started, readable⟩
    · rw [bounded.reported (by simp [atI])] at writable
      cases writable
  · intro serves dropped
    have allowed := removal serves (dropped.imp_left taken_iff.mp)
    exact ⟨allowed.2, Or.inl allowed.1⟩

/-- A pass that stays inside the arrays and leaves the listening socket in the table meets the
condition. -/
theorem roomy_of_pass {world : World} {answers : Answers} {i : Int} {passed : Passed}
    (atI : world.cursor = some i) (pass : Pass answers i world.server passed)
    (started : 1 ≤ passed.server.activeConns) : roomy world (.body answers) := by
  intro index atIndex
  rw [atI, Option.mem_some_iff] at atIndex
  subst atIndex
  cases pass with
  | refused accepts failed =>
      refine ⟨?_, absurd accepts⟩
      intro _ granted
      rw [failed] at granted
      cases granted
  | accepted accepts granted room => exact ⟨fun _ _ => room, absurd accepts⟩
  | removed serves inner taken removable served =>
      exact ⟨fun accepts => absurd accepts serves, fun _ _ => ⟨inner, removable.1⟩⟩
  | hungUp serves reaches notTaken down removable served =>
      refine ⟨fun accepts => absurd accepts serves, fun _ _ => ⟨?_, removable.1⟩⟩
      rcases removable.2 with inner | alone
      · exact inner
      · simp only at started
        omega
  | kept serves reaches notTaken up served =>
      refine ⟨fun accepts => absurd accepts serves, ?_⟩
      rintro _ (taken | down)
      · exact absurd (taken_iff.mpr taken) notTaken
      · rw [up] at down
        cases down

/-- In a run whose passes all meet the condition the length stays in its bounds, and it is
exactly the condition that keeps the next pass inside the arrays. -/
theorem indices_inside {world : World} (reached : Reachable (guarded system roomy) world) :
    (1 ≤ world.server.activeConns ∧ world.server.activeConns ≤ maxConnections + 1) ∧
      ∀ answers i, Honest world (.body answers) → world.cursor = some i →
        ((∃ passed, body answers i world.server = some passed ∧
            1 ≤ passed.server.activeConns ∧ passed.server.activeConns ≤ maxConnections + 1) ↔
          roomy world (.body answers)) := by
  have before := reachable_of_guarded reached
  have laid := (reachable_laid before).1
  have bounded := reachable_bounded reached
  refine ⟨⟨bounded.started, laid.range.2⟩, ?_⟩
  intro answers i honest atI
  obtain ⟨from0, inTable, range⟩ := reachable_cursor before atI
  constructor
  · rintro ⟨passed, result, started, _⟩
    exact roomy_of_pass atI (body_pass from0 inTable range result) started
  · intro allowed
    obtain ⟨passed, result⟩ := body_inside laid bounded atI from0 inTable allowed
    have step : (guarded system roomy).step world (.body answers) (world.afterBody passed) :=
      ⟨allowed, honest, by simp [advance, atI, result]⟩
    have after := Reachable.next _ reached step
    exact ⟨passed, result, (reachable_bounded after).started,
      (reachable_laid (reachable_of_guarded after)).1.range.2⟩

theorem indices_inside_moved :
    ∃ world, Reachable (guarded system roomy) world ∧ world.server.activeConns = 2 ∧
      ∃ passed, body quiet 1 world.server = some passed ∧ 1 ≤ passed.server.activeConns ∧
        passed.server.activeConns ≤ maxConnections + 1 := by
  -- descriptor 5 was hung up, and the entry of descriptor 6 that took its place is next
  obtain ⟨world, reached, active, atI, honest, allowed⟩ := exists_reachable_of_run
    (guarded_next_sound roomy next_sound) ⟨3, fun _ => .zero, by decide, rfl⟩
    (connect ++
      [report 0 .read, .body { quiet with accept := .ok 6 }, .body quiet, .body quiet,
        report 1 ⟨false, false, true, false⟩, .body quiet, .body quiet])
    (fun world => world.server.activeConns = 2 ∧ world.cursor = some 1 ∧
      Honest world (.body quiet) ∧ roomy world (.body quiet))
    (by decide +kernel)
  exact ⟨world, reached, active, ((indices_inside reached).2 quiet 1 honest atI).mpr allowed⟩

/-! ## A full table -/

theorem body_accepts {answers : Answers} {i : Int} {server : Server} {clientFd : Fd}
    (from0 : 0 ≤ i) (inTable : i < server.activeConns)
    (bounded : server.activeConns ≤ maxConnections + 1) (accepts : Accepts i server)
    (granted : answers.accept = .ok clientFd) :
    body answers i server =
      if server.activeConns ≤ maxConnections then
        some ⟨withAccepted clientFd server, i + 1, [.accept clientFd]⟩
      else none := by
  have entry := entry_inside from0 inTable bounded
  have started : 1 ≤ server.activeConns := by omega
  have listening : (server.tables.fds.cell i).fd = server.serverFd ∧
      (server.tables.fds.cell i).revents.pollin = true := accepts
  simp only [body, CArray.get_inside _ entry, Option.bind_eq_bind, Option.bind_some]
  rw [if_pos listening, accept_conn_eq granted started]
  split_ifs
  · rfl
  · rfl

/-- Nothing happens to an entry for which nothing was reported. -/
theorem body_idle {answers : Answers} {i : Int} {server : Server}
    (inside : Inside (maxConnections + 1) i) (idle : (server.entry i).revents = .zero) :
    body answers i server = some ⟨server, i + 1, []⟩ := by
  simp [body, CArray.get_inside _ inside, idle, readStage, writeStage, hangStage, Events.zero,
    Events.down]

theorem honest_quiet (world : World) : Honest world (.body quiet) := by
  constructor
  · intro fd granted
    cases granted
  · intro _ _ _
    exact ⟨rfl, rfl⟩

/-- A pass over entries for which nothing was reported ends where it began. -/
theorem scan_idle (left : Nat) {world : World} {i : Int} (reached : Reachable system world)
    (atI : world.cursor = some i) (distance : world.server.activeConns = i + left)
    (idle : ∀ k, i ≤ k → k < world.server.activeConns → (world.server.entry k).revents = .zero) :
    Reachable system { world with cursor := none } := by
  induction left generalizing world i with
  | zero =>
      have inTable := (reachable_cursor reached atI).2.1
      omega
  | succ left ih =>
      obtain ⟨from0, inTable, bounded⟩ := reachable_cursor reached atI
      have result := @body_idle quiet _ _ (entry_inside from0 inTable bounded)
        (idle i (Int.le_refl i) inTable)
      have step : system.step world (.body quiet)
          { world with cursor := scan (i + 1) world.server } :=
        ⟨honest_quiet world, by simp [advance, atI, result, World.afterBody]⟩
      have after := Reachable.next _ reached step
      by_cases more : i + 1 < world.server.activeConns
      · rw [scan, if_pos more] at after
        apply ih after rfl
        · simp only
          omega
        · intro k later inside
          exact idle k (by omega) inside
      · rw [scan, if_neg more] at after
        exact after

theorem number_ne {count number : Nat} (later : count + 1 ≤ number) :
    (100 : Int) + number ≠ 100 + count := by
  omega

theorem number_valid (number : Nat) : (0 : Int) ≤ 100 + number := by
  omega

theorem number_ne_listener (number : Nat) : (100 : Int) + number ≠ 3 := by
  omega

/-- At a call of `poll`, with `count` connections whose descriptors are counted up from 100. -/
structure Filled (count : Nat) (world : World) : Prop where
  reached : Reachable system world
  atPoll : world.cursor = none
  active : world.server.activeConns = count + 1
  asked : (world.server.entry 0).events = .read
  idle : ∀ k, world.server.activeConns ≤ k → (world.server.entry k).revents = .zero
  unused : ∀ number : Nat, count ≤ number → world.kernel.file (100 + number) = .closed

/-- `poll` reports the listening socket, and the pass begins with it. -/
theorem filled_polled {count : Nat} {world : World} (filled : Filled count world) :
    ∃ now, Reachable system now ∧ now.cursor = some 0 ∧ Accepts 0 now.server ∧
      now.server.activeConns = count + 1 ∧ (now.server.entry 0).events = .read ∧
      (∀ k, 1 ≤ k → (now.server.entry k).revents = .zero) ∧ now.kernel = world.kernel := by
  have laid := (reachable_laid filled.reached).1
  have active := filled.active
  have listening : world.kernel.file (world.server.tables.fds.cell 0).fd = .listener := by
    rw [laid.first (by omega), laid.listening]
  let revents : Int → Events := fun k => if k = 0 then .read else .zero
  have honest : Honest world (.poll revents) := by
    intro k from0 inTable
    by_cases first : k = 0
    · subst first
      refine ⟨?_, fun closed => by rw [listening] at closed; cases closed⟩
      rw [show world.server.tables.fds.cell 0 = world.server.entry 0 from rfl, filled.asked]
      decide
    · simp [revents, first, Events.Reports, Events.zero]
  have step : system.step world (.poll revents) (world.afterPoll revents) :=
    ⟨honest, by simp [advance, filled.atPoll]⟩
  have listed : world.server.Listed 0 := ⟨Int.le_refl 0, by omega⟩
  have first : (world.afterPoll revents).server.entry 0 =
      { world.server.entry 0 with revents := .read } := if_pos listed
  refine ⟨world.afterPoll revents, .next _ filled.reached step, ?_, ⟨?_, ?_⟩, active, ?_, ?_, rfl⟩
  · exact if_pos listed.2
  · rw [first]
    exact laid.first (by omega)
  · rw [first]
    rfl
  · rw [first]
    exact filled.asked
  · intro k later
    by_cases inTable : world.server.Listed k
    · have reported : (world.afterPoll revents).server.entry k =
          { world.server.entry k with revents := revents k } := if_pos inTable
      rw [reported]
      exact if_neg (by omega)
    · have same : (world.afterPoll revents).server.entry k = world.server.entry k :=
        if_neg inTable
      rw [same]
      unfold Server.Listed at inTable
      exact filled.idle k (by omega)

theorem filled_next {count : Nat} (room : count < 256) {world : World}
    (filled : Filled count world) : ∃ after, Filled (count + 1) after := by
  obtain ⟨now, reached, atI, accepts, active, asked, idle, kernel⟩ := filled_polled filled
  obtain ⟨from0, inTable, bounded⟩ := reachable_cursor reached atI
  have result := body_accepts from0 inTable bounded accepts
    (show ({ quiet with accept := .ok (100 + count) } : Answers).accept = .ok (100 + count) from rfl)
  have fits : now.server.activeConns ≤ maxConnections := by
    rw [active, maxConnections]
    omega
  rw [if_pos fits] at result
  have closed : now.kernel.file (100 + count) = .closed := by
    rw [kernel]
    exact filled.unused count (Nat.le_refl count)
  have honest : Honest now (.body { quiet with accept := .ok (100 + count) }) := by
    refine ⟨?_, fun _ _ _ => ⟨rfl, rfl⟩⟩
    intro fd granted
    cases granted
    exact ⟨number_valid count, closed⟩
  have step : system.step now (.body { quiet with accept := .ok (100 + count) })
      (now.afterBody ⟨withAccepted (100 + count) now.server, 0 + 1, [.accept (100 + count)]⟩) :=
    ⟨honest, by simp [advance, atI, result]⟩
  have more : (0 : Int) + 1 < (withAccepted (100 + count) now.server).activeConns := by
    rw [accepted_active]
    omega
  have quietEntries : ∀ k, 1 ≤ k →
      ((withAccepted (100 + count) now.server).entry k).revents = .zero := by
    intro k later
    by_cases new : k = now.server.activeConns
    · subst new
      rw [accepted_entry_new]
      exact idle _ later
    · rw [accepted_entry_old _ _ new]
      exact idle k later
  have scanned := scan_idle (count + 1) (.next _ reached step) (if_pos more)
    (by simp only [World.afterBody, accepted_active]; omega)
    (fun k later _ => quietEntries k later)
  refine ⟨_, scanned, rfl, ?_, ?_, ?_, ?_⟩
  · simp only [World.afterBody, accepted_active]
    omega
  · simp only [World.afterBody]
    rw [accepted_entry_old _ _ (by omega)]
    exact asked
  · intro k later
    exact quietEntries k (by simp only [World.afterBody, accepted_active] at later; omega)
  · intro number later
    simp only [World.afterBody, Kernel.exec_cons, Kernel.exec_nil, Kernel.step]
    rw [Kernel.open_file_other _ (number_ne later), kernel]
    exact filled.unused number (by omega)

theorem exists_filled (count : Nat) (room : count ≤ 256) : ∃ world, Filled count world := by
  induction count with
  | zero =>
      refine ⟨boot 3 fun _ => .zero, .start ⟨3, _, by decide, rfl⟩, rfl, rfl, ?_, ?_, ?_⟩
      · exact congrArg PollFd.events (CArray.put_same (initPollfd fun _ => .zero) 0 _)
      · intro k later
        have different : k ≠ 0 := by
          have active := boot_active 3 fun _ => .zero
          omega
        exact congrArg PollFd.revents (CArray.put_other (initPollfd fun _ => .zero) different _)
      · intro number _
        simp [boot, Kernel.boot, number_ne_listener number]
  | succ count ih =>
      obtain ⟨world, filled⟩ := ih (by omega)
      exact filled_next (by omega) filled

/-- The server accepts a connection for which it has no entry. -/
theorem full_table :
    ¬ ∀ world, Reachable system world →
      (1 ≤ world.server.activeConns ∧ world.server.activeConns ≤ maxConnections + 1) ∧
        ∀ answers i, Honest world (.body answers) → world.cursor = some i →
          ∃ passed, body answers i world.server = some passed := by
  intro always
  obtain ⟨world, filled⟩ := exists_filled 256 (Nat.le_refl 256)
  obtain ⟨now, reached, atI, accepts, active, _, _, kernel⟩ := filled_polled filled
  obtain ⟨from0, inTable, bounded⟩ := reachable_cursor reached atI
  have closed : now.kernel.file (100 + (256 : Nat)) = .closed := by
    rw [kernel]
    exact filled.unused 256 (Nat.le_refl 256)
  have honest : Honest now (.body { quiet with accept := .ok (100 + (256 : Nat)) }) := by
    refine ⟨?_, fun _ _ _ => ⟨rfl, rfl⟩⟩
    intro fd granted
    cases granted
    exact ⟨by decide, closed⟩
  obtain ⟨passed, result⟩ := (always now reached).2 _ 0 honest atI
  rw [body_accepts from0 inTable bounded accepts rfl, if_neg] at result
  · cases result
  · rw [active, maxConnections]
    decide

end LinuxSystemPrograms.PollServerV1Bounds
