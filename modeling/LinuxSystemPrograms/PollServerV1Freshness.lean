import LinuxSystemPrograms.PollServerV1Table

/-!
# Which report the poll server acts on

A run is watched together with the last call of `poll` that has succeeded: the server and the
kernel it found, and its report. The bits that the loop acts on come from this report as long
as no connection is accepted into a slot that has bits left.
-/

namespace LinuxSystemPrograms.PollServerV1Freshness

open LinuxSystemPrograms.CheckedArray
open LinuxSystemPrograms.ConnectionAccount
open LinuxSystemPrograms.EchoClient
open LinuxSystemPrograms.PollServerV1
open LinuxSystemPrograms.PollServerV1Table
open LinuxSystemPrograms.Sockets
open LinuxSystemPrograms.Transition

set_option autoImplicit false

/-- `asked` is the world in which the last `poll` was called, `told` what it reported. -/
structure Watch where
  world : World
  asked : World
  told : Int → Events

def Watch.next (watch : Watch) (after : World) : Label → Watch
  | .poll report => ⟨after, watch.world, report⟩
  | _ => { watch with world := after }

/-- The runs of the server, with the last call of `poll` kept in mind. -/
def watched : System Watch Label where
  init watch := system.init watch.world ∧ watch.asked = watch.world ∧ watch.told = fun _ => .zero
  step watch label after := ∃ world, system.step watch.world label world ∧
    after = watch.next world label

/-- What the loop body does to an entry that is not the listening socket. -/
inductive Handler where
  | recv
  | send
  | hangUp
  deriving DecidableEq, Repr

def Handler.bit : Handler → Events → Bool
  | .recv, revents => revents.pollin
  | .send, revents => revents.pollout
  | .hangUp, revents => revents.down

/-- `handle_recv` comes first; where it returns 0 the other two are skipped. -/
def Executed (answers : Answers) (i : Int) (server : Server) (handler : Handler) : Prop :=
  ¬ Accepts i server ∧ handler.bit (server.entry i).revents = true ∧
    (handler = .recv ∨ ¬ Taken answers (server.entry i).revents (server.record i).view)

instance (answers : Answers) (i : Int) (server : Server) (handler : Handler) :
    Decidable (Executed answers i server handler) :=
  inferInstanceAs (Decidable (_ ∧ _))

/-- The last `poll` reported the bit for an entry with the descriptor that entry `i` has now. -/
def Reported (watch : Watch) (i : Int) (handler : Handler) : Prop :=
  ∃ j, watch.asked.server.Listed j ∧
    (watch.asked.server.entry j).fd = (watch.world.server.entry i).fd ∧
    handler.bit (watch.told j) = true

def named (watch : Watch) (i : Int) : File :=
  watch.world.kernel.file (watch.world.server.entry i).fd

def namedBefore (watch : Watch) (i : Int) : File :=
  watch.asked.kernel.file (watch.world.server.entry i).fd

/-- Every handler acts on a bit that was reported for the descriptor of its entry; the
descriptor names what it named then, unless it has been closed since. -/
def ActsOnReport (watch : Watch) : Prop :=
  ∀ i ∈ watch.world.cursor, ∀ answers handler, Honest watch.world (.body answers) →
    Executed answers i watch.world.server handler →
    Reported watch i handler ∧ (named watch i = namedBefore watch i ∨ named watch i = .closed)

/-- Every handler acts on a bit that was reported for the connection in its entry. -/
def ActsOnFresh (watch : Watch) : Prop :=
  ∀ i ∈ watch.world.cursor, ∀ answers handler, Honest watch.world (.body answers) →
    Executed answers i watch.world.server handler →
    Reported watch i handler ∧ named watch i = namedBefore watch i ∧ named watch i ≠ .closed

/-- No connection is accepted into a slot with bits left. -/
def slotQuiet (watch : Watch) : Label → Prop
  | .body answers => ∀ i ∈ watch.world.cursor, Accepts i watch.world.server →
      answers.accept.toOption.isSome = true →
      (watch.world.server.entry watch.world.server.activeConns).revents = .zero
  | _ => True

/-- No descriptor is closed while an entry that the loop still comes to has bits for it. -/
def noneLeft (watch : Watch) : Label → Prop
  | .body answers => ∀ i ∈ watch.world.cursor, ¬ Accepts i watch.world.server →
      (Taken answers (watch.world.server.entry i).revents (watch.world.server.record i).view →
        i ≠ watch.world.server.activeConns - 1) ∧
      (Taken answers (watch.world.server.entry i).revents (watch.world.server.record i).view ∨
          (watch.world.server.entry i).revents.down = true →
        ∀ k, i < k → k < watch.world.server.activeConns →
          (watch.world.server.entry k).fd = (watch.world.server.entry i).fd →
          (watch.world.server.entry k).revents = .zero)
  | _ => True

/-! ## What a pass leaves to the next ones -/

section Step

variable {answers : Answers} {i : Int} {server : Server} {passed : Passed}

/-- An entry that the loop still comes to is the one just accepted, or an entry that it would
have come to anyway; only a removed entry that was the last one is come to again. -/
theorem pass_ahead (pass : Pass answers i server passed)
    {k : Int} (ahead : passed.next ≤ k) (listed : k < passed.server.activeConns) :
    (k = server.activeConns ∧ Accepts i server ∧ answers.accept.toOption.isSome = true ∧
        (passed.server.entry k).revents = (server.entry k).revents) ∨
      ∃ l, (i < l ∨ l = i ∧ i = server.activeConns - 1 ∧
          Taken answers (server.entry i).revents (server.record i).view) ∧
        ¬ server.activeConns ≤ l ∧ (passed.server.entry k).fd = (server.entry l).fd ∧
        (passed.server.entry k).revents = (server.entry l).revents := by
  cases pass with
  | refused => exact Or.inr ⟨k, Or.inl ahead, not_le.mpr listed, rfl, rfl⟩
  | @accepted clientFd accepts granted room =>
      rw [accepted_active] at listed
      by_cases newest : k = server.activeConns
      · subst newest
        refine Or.inl ⟨rfl, accepts, by rw [granted]; rfl, ?_⟩
        rw [accepted_entry_new]
      · refine Or.inr ⟨k, Or.inl ahead, by omega, ?_, ?_⟩
        · rw [accepted_entry_old clientFd server newest]
        · rw [accepted_entry_old clientFd server newest]
  | removed serves inner taken removable served =>
      have inside : k < server.activeConns := listed
      have behind : i ≤ k := ahead
      refine Or.inr ⟨origin i server.activeConns k, ?_, ?_, removed_fd served (by omega),
        removed_revents served (by omega)⟩
      · unfold origin
        split_ifs with own
        · by_cases isLast : i = server.activeConns - 1
          · exact Or.inr ⟨isLast.symm, isLast, taken⟩
          · exact Or.inl (by omega)
        · exact Or.inl (by omega)
      · unfold origin
        split_ifs
        · omega
        · omega
  | hungUp serves reaches notTaken down removable served =>
      have inside : k < server.activeConns - 1 := listed
      have behind : i ≤ k := ahead
      refine Or.inr ⟨origin i server.activeConns k, ?_, ?_, removed_fd served (by omega),
        removed_revents served (by omega)⟩
      · unfold origin
        split_ifs
        · exact Or.inl (by omega)
        · exact Or.inl (by omega)
      · unfold origin
        split_ifs
        · omega
        · omega
  | kept serves reaches notTaken up served =>
      exact Or.inr ⟨k, Or.inl ahead, not_le.mpr listed, served.kept.fd k, served.kept.revents k⟩

theorem closing_file (kernel : Kernel Return) (own fd other : Fd) {events : List Event}
    (noClose : ConnEvent.close ∉ events) :
    (kernel.exec (events.map (.io own) ++ [.io fd .close])).file other = kernel.file other ∨
      other = fd ∧
        (kernel.exec (events.map (.io own) ++ [.io fd .close])).file other = .closed := by
  rw [Kernel.exec_append, Kernel.exec_cons, Kernel.exec_nil,
    ← congrFun (Kernel.exec_io_file kernel own noClose) other]
  exact Kernel.step_close_file _ fd other

/-- A pass changes what a descriptor names where it accepts one or removes an entry. -/
theorem pass_file (pass : Pass answers i server passed) (kernel : Kernel Return) (fd : Fd) :
    (kernel.exec passed.actions).file fd = kernel.file fd ∨
      (Accepts i server ∧ answers.accept = .ok fd) ∨
      (¬ Accepts i server ∧ fd = (server.entry i).fd ∧
        (Taken answers (server.entry i).revents (server.record i).view ∨
          (server.entry i).revents.down = true) ∧
        (kernel.exec passed.actions).file fd = .closed) := by
  cases pass with
  | refused => exact Or.inl rfl
  | @accepted clientFd accepts granted room =>
      by_cases same : fd = clientFd
      · subst same
        exact Or.inr (Or.inl ⟨accepts, granted⟩)
      · exact Or.inl (Kernel.open_file_other kernel same)
  | removed serves inner taken removable served =>
      rcases closing_file kernel (server.record i).clientFd (server.entry i).fd fd
        (read_events_no_close answers (server.entry i).revents (server.record i).view) with
        kept | ⟨own, closed⟩
      · exact Or.inl kept
      · exact Or.inr (Or.inr ⟨serves, own, Or.inl taken, closed⟩)
  | hungUp serves reaches notTaken down removable served =>
      rcases closing_file kernel (server.record i).clientFd (server.entry i).fd fd
        (handler_events_no_close answers i server) with kept | ⟨own, closed⟩
      · exact Or.inl kept
      · exact Or.inr (Or.inr ⟨serves, own, Or.inr down, closed⟩)
  | kept serves reaches notTaken up served =>
      exact Or.inl (congrFun (Kernel.exec_io_file kernel _
        (handler_events_no_close answers i server)) fd)

/-- The loop comes back to index 0 only after an empty table. -/
theorem pass_from_zero (pass : Pass answers i server passed) (from0 : 0 ≤ i)
    (more : passed.next < passed.server.activeConns) : passed.next ≠ 0 := by
  intro zero
  cases pass with
  | refused =>
      have next : i + 1 = 0 := zero
      omega
  | accepted =>
      have next : i + 1 = 0 := zero
      omega
  | removed serves inner =>
      have next : i = 0 := zero
      omega
  | hungUp serves reaches notTaken down removable served =>
      have next : i = 0 := zero
      have listed : i < server.activeConns - 1 := more
      have alone := removable.2
      omega
  | kept =>
      have next : i + 1 = 0 := zero
      omega

end Step

/-! ## Every bit comes from the last report -/

theorem watched_world {watch : Watch} (reached : Reachable watched watch) :
    Reachable system watch.world := by
  induction reached with
  | start initial => exact .start initial.1
  | next label prior taken ih =>
      obtain ⟨world, step, rfl⟩ := taken
      cases label with
      | poll report => exact .next (.poll report) ih step
      | pollFailed => exact .next .pollFailed ih step
      | body answers => exact .next (.body answers) ih step

/-- Nothing is left in the entry, or what the last `poll` reported for its descriptor. -/
def Traced (watch : Watch) (k : Int) : Prop :=
  (watch.world.server.entry k).revents = .zero ∨
    ∃ j, watch.asked.server.Listed j ∧
      (watch.asked.server.entry j).fd = (watch.world.server.entry k).fd ∧
      (watch.world.server.entry k).revents = watch.told j ∧
      (named watch k = namedBefore watch k ∨ named watch k = .closed)

/-- `accept` happens before anything else in a pass over the table, so that it cannot reuse a
descriptor that was open when `poll` was called. -/
structure Tracing (watch : Watch) : Prop where
  truthful : ∀ j, watch.asked.server.Listed j →
    watch.asked.kernel.file (watch.asked.server.entry j).fd = .closed → watch.told j = .zero
  first : watch.world.cursor = some 0 → watch.world.kernel = watch.asked.kernel
  ahead : ∀ i ∈ watch.world.cursor, ∀ k, i ≤ k → k < watch.world.server.activeConns →
    Traced watch k

theorem poll_tracing {watch : Watch} {report : Int → Events}
    (honest : Honest watch.world (.poll report)) :
    Tracing (watch.next (watch.world.afterPoll report) (.poll report)) where
  truthful j listed closed := (honest j listed.1 listed.2).2 closed
  first _ := rfl
  ahead i atI k behind listed := by
    obtain ⟨rfl, _⟩ := scan_eq_some.mp atI
    have inTable : watch.world.server.Listed k := ⟨behind, listed⟩
    exact Or.inr ⟨k, inTable, (polled_fd report watch.world.server k).symm,
      polled_revents report inTable, Or.inl rfl⟩

/-- An entry that the loop still comes to keeps its trace through a pass. -/
theorem traced_moved {watch : Watch} {after : World} {k l : Int} (traced : Traced watch l)
    (fd : (after.server.entry k).fd = (watch.world.server.entry l).fd)
    (revents : (after.server.entry k).revents = (watch.world.server.entry l).revents)
    (file : after.kernel.file (watch.world.server.entry l).fd = named watch l ∨
      after.kernel.file (watch.world.server.entry l).fd = .closed) :
    Traced { watch with world := after } k := by
  rcases traced with empty | ⟨j, listed, sameFd, told, before⟩
  · exact Or.inl (revents.trans empty)
  · refine Or.inr ⟨j, listed, sameFd.trans fd.symm, revents.trans told, ?_⟩
    simp only [named, namedBefore, fd]
    rcases file with kept | closed
    · rw [kept]
      exact before
    · exact Or.inr closed

theorem body_tracing {watch : Watch} {answers : Answers} {i : Int} {passed : Passed}
    (laid : Laid watch.world.server watch.world.kernel) (tracing : Tracing watch)
    (quiet : slotQuiet watch (.body answers)) (honest : Honest watch.world (.body answers))
    (atI : watch.world.cursor = some i) (from0 : 0 ≤ i)
    (inTable : i < watch.world.server.activeConns)
    (pass : Pass answers i watch.world.server passed) :
    Tracing (watch.next (watch.world.afterBody passed) (.body answers)) where
  truthful := tracing.truthful
  first atZero := by
    obtain ⟨zero, more⟩ := scan_eq_some.mp atZero
    exact absurd zero.symm (pass_from_zero pass from0 more)
  ahead next atNext k behind listed := by
    obtain ⟨rfl, _⟩ := scan_eq_some.mp atNext
    rcases pass_ahead pass behind listed with
      ⟨rfl, accepts, granted, kept⟩ | ⟨l, order, inside, fd, revents⟩
    · exact Or.inl (kept.trans (quiet i atI accepts granted))
    · have traced : Traced watch l := tracing.ahead i atI l (by omega) (by omega)
      rcases pass_file pass watch.world.kernel (watch.world.server.entry l).fd with
        kept | ⟨accepts, granted⟩ | ⟨_, _, _, closed⟩
      · exact traced_moved traced fd revents (Or.inl kept)
      · -- the descriptor was not open when `poll` was called, so that nothing was reported
        have atZero : i = 0 := by
          by_contra notZero
          exact laid.other i ⟨by omega, inTable⟩ accepts.1
        subst atZero
        have unused := (honest.1 _ (by rw [granted]; rfl)).2
        rw [tracing.first atI] at unused
        rcases traced with empty | ⟨j, listedJ, sameFd, told, _⟩
        · exact Or.inl (revents.trans empty)
        · rw [← sameFd] at unused
          exact Or.inl (revents.trans (told.trans (tracing.truthful j listedJ unused)))
      · exact traced_moved traced fd revents (Or.inr closed)

theorem reachable_tracing {watch : Watch}
    (reached : Reachable (guarded watched slotQuiet) watch) : Tracing watch := by
  apply reachable_invariant _ _ reached
  · intro watch initial
    obtain ⟨⟨serverFd, stack, _, booted⟩, asked, told⟩ := initial
    constructor
    case truthful =>
      intro j _ _
      rw [told]
    case first =>
      intro _
      rw [asked]
    case ahead =>
      intro i atI
      rw [booted] at atI
      cases atI
  · intro watch label after prior tracing taken
    obtain ⟨quiet, world, step, rfl⟩ := taken
    have before := watched_world (reachable_of_guarded prior)
    rcases step_cases step with
      ⟨report, rfl, _, rfl⟩ | ⟨rfl, rfl⟩ | ⟨answers, i, passed, rfl, atI, result, rfl⟩
    · exact poll_tracing step.1
    · exact tracing
    · obtain ⟨from0, inTable, bounded⟩ := reachable_cursor before atI
      exact body_tracing (reachable_laid before).1 tracing quiet step.1 atI from0 inTable
        (body_pass from0 inTable bounded result)

/-! ## Every bit is for an open connection -/

/-- An entry with bits that the loop still comes to has an open descriptor. -/
def AheadOpen (world : World) : Prop :=
  ∀ i ∈ world.cursor, ∀ k, i ≤ k → k < world.server.activeConns →
    (world.server.entry k).revents = .zero ∨
      world.kernel.file (world.server.entry k).fd ≠ .closed

/-- Neither a bit is left in the slot of a new connection nor one for a closed descriptor. -/
def freshOnly (watch : Watch) (label : Label) : Prop := slotQuiet watch label ∧ noneLeft watch label

theorem poll_ahead_open {world : World} {report : Int → Events}
    (honest : Honest world (.poll report)) : AheadOpen (world.afterPoll report) := by
  intro i atI k behind listed
  obtain ⟨rfl, _⟩ := scan_eq_some.mp atI
  have inTable : world.server.Listed k := ⟨behind, listed⟩
  have revents : ((world.afterPoll report).server.entry k).revents = report k :=
    polled_revents report inTable
  have fd : ((world.afterPoll report).server.entry k).fd = (world.server.entry k).fd :=
    polled_fd report world.server k
  rw [revents, fd]
  by_cases closed : world.kernel.file (world.server.entry k).fd = .closed
  · exact Or.inl ((honest k behind listed).2 closed)
  · exact Or.inr closed

theorem body_ahead_open {watch : Watch} {answers : Answers} {i : Int} {passed : Passed}
    (ahead : AheadOpen watch.world) (fresh : freshOnly watch (.body answers))
    (honest : Honest watch.world (.body answers)) (atI : watch.world.cursor = some i)
    (pass : Pass answers i watch.world.server passed) :
    AheadOpen (watch.world.afterBody passed) := by
  intro next atNext k behind listed
  obtain ⟨rfl, _⟩ := scan_eq_some.mp atNext
  rcases pass_ahead pass behind listed with
    ⟨rfl, accepts, granted, kept⟩ | ⟨l, order, inside, fd, revents⟩
  · exact Or.inl (kept.trans (fresh.1 i atI accepts granted))
  · have goal : (watch.world.server.entry l).revents = .zero ∨
        (watch.world.kernel.exec passed.actions).file (watch.world.server.entry l).fd ≠
          .closed := by
      rcases pass_file pass watch.world.kernel (watch.world.server.entry l).fd with
        kept | ⟨_, granted⟩ | ⟨serves, sameFd, closes, _⟩
      · rw [kept]
        exact ahead i atI l (by omega) (by omega)
      · have unused := (honest.1 _ (by rw [granted]; rfl)).2
        exact Or.imp_right (absurd unused) (ahead i atI l (by omega) (by omega))
      · obtain ⟨notLast, noneAhead⟩ := fresh.2 i atI serves
        rcases order with later | ⟨_, isLast, taken⟩
        · exact Or.inl (noneAhead closes l later (by omega) sameFd)
        · exact absurd isLast (notLast taken)
    simp only [World.afterBody, fd, revents]
    exact goal

theorem reachable_ahead_open {watch : Watch}
    (reached : Reachable (guarded watched freshOnly) watch) : AheadOpen watch.world := by
  apply reachable_invariant _ _ reached
  · intro watch initial i atI
    obtain ⟨⟨serverFd, stack, _, booted⟩, _⟩ := initial
    rw [booted] at atI
    cases atI
  · intro watch label after prior ahead taken
    obtain ⟨fresh, world, step, rfl⟩ := taken
    have before := watched_world (reachable_of_guarded prior)
    rcases step_cases step with
      ⟨report, rfl, _, rfl⟩ | ⟨rfl, rfl⟩ | ⟨answers, i, passed, rfl, atI, result, rfl⟩
    · exact poll_ahead_open step.1
    · exact ahead
    · obtain ⟨from0, inTable, bounded⟩ := reachable_cursor before atI
      exact body_ahead_open ahead fresh step.1 atI
        (body_pass from0 inTable bounded result)

theorem executed_not_zero {answers : Answers} {i : Int} {server : Server} {handler : Handler}
    (executed : Executed answers i server handler) : (server.entry i).revents ≠ .zero := by
  intro zero
  have bit := executed.2.1
  rw [zero] at bit
  cases handler <;> cases bit

theorem acts_on_report {watch : Watch} (tracing : Tracing watch)
    (inTable : ∀ i ∈ watch.world.cursor, i < watch.world.server.activeConns) :
    ActsOnReport watch := by
  intro i atI answers handler _ executed
  rcases tracing.ahead i atI i (Int.le_refl i) (inTable i atI) with
    empty | ⟨j, listed, sameFd, told, file⟩
  · exact absurd empty (executed_not_zero executed)
  · refine ⟨⟨j, listed, sameFd, ?_⟩, file⟩
    rw [← told]
    exact executed.2.1

/-- Without bits in the slot of a new connection the loop acts on the last report only, and on
no closed connection as long as none is closed with bits left for it. -/
theorem handlers_act_on_fresh_events {watch : Watch}
    (reached : Reachable (guarded watched slotQuiet) watch) :
    ActsOnReport watch ∧ (Reachable (guarded watched freshOnly) watch → ActsOnFresh watch) := by
  have world := watched_world (reachable_of_guarded reached)
  have inTable : ∀ i ∈ watch.world.cursor, i < watch.world.server.activeConns :=
    fun i atI => (reachable_cursor world atI).2.1
  have reports : ActsOnReport watch := acts_on_report (reachable_tracing reached) inTable
  refine ⟨reports, ?_⟩
  intro fresh i atI answers handler honest executed
  obtain ⟨reported, file⟩ := reports i atI answers handler honest executed
  have opened : named watch i ≠ .closed :=
    (reachable_ahead_open fresh i atI i (Int.le_refl i) (inTable i atI)).resolve_left
      (executed_not_zero executed)
  exact ⟨reported, file.resolve_right opened, opened⟩

/-! ## Short runs -/

def watchNext (watch : Watch) (label : Label) : Option Watch :=
  (PollServerV1.next watch.world label).map fun world => watch.next world label

theorem watch_next_sound (watch : Watch) (label : Label) (after : Watch)
    (result : watchNext watch label = some after) : watched.step watch label after := by
  obtain ⟨world, step, rfl⟩ := Option.map_eq_some_iff.mp result
  exact ⟨world, next_sound watch.world label world step, rfl⟩

def start : Watch := ⟨boot 3 fun _ => .zero, boot 3 fun _ => .zero, fun _ => .zero⟩

theorem start_initial : watched.init start :=
  ⟨⟨3, fun _ => .zero, by decide, rfl⟩, rfl, rfl⟩

instance (watch : Watch) : (label : Label) → Decidable (slotQuiet watch label)
  | .poll _ => isTrue trivial
  | .pollFailed => isTrue trivial
  | .body _ => inferInstanceAs (Decidable (∀ i ∈ watch.world.cursor, _))

instance (watch : Watch) : (label : Label) → Decidable (noneLeft watch label)
  | .poll _ => isTrue trivial
  | .pollFailed => isTrue trivial
  | .body _ => inferInstanceAs (Decidable (∀ i ∈ watch.world.cursor, _))

instance (watch : Watch) (label : Label) : Decidable (freshOnly watch label) :=
  inferInstanceAs (Decidable (_ ∧ _))

theorem handlers_act_on_fresh_events_first_line :
    ∃ watch, Reachable (guarded watched freshOnly) watch ∧ watch.world.cursor = some 1 ∧
      Executed { quiet with recv := .ok [97] } 1 watch.world.server .recv ∧
      ActsOnReport watch ∧ ActsOnFresh watch := by
  obtain ⟨watch, reached, cursor, executed⟩ := exists_reachable_of_run
    (guarded_next_sound freshOnly watch_next_sound) start_initial
    (connect ++ [report 1 .read, .body quiet])
    (fun watch => watch.world.cursor = some 1 ∧
      Executed { quiet with recv := .ok [97] } 1 watch.world.server .recv)
    (by decide +kernel)
  have weaker : Reachable (guarded watched slotQuiet) watch :=
    reachable_guarded_mono (fun _ _ fresh => fresh.1) reached
  have acts := handlers_act_on_fresh_events weaker
  exact ⟨watch, reached, cursor, executed, acts.1, acts.2 reached⟩

/-- Descriptor 5 hangs up; the next connection gets its slot, and is closed at once. -/
def inherit : List Label :=
  connect ++ [report 1 ⟨false, false, true, false⟩, .body quiet, .body quiet,
    report 0 .read, .body { quiet with accept := .ok 6 }]

theorem accepted_connection_hung_up :
    ¬ ∀ watch, Reachable watched watch → ActsOnReport watch := by
  intro always
  obtain ⟨watch, reached, cursor, honest, executed, asked, listener, newest⟩ :=
    exists_reachable_of_run watch_next_sound start_initial inherit
      (fun watch => watch.world.cursor = some 1 ∧ Honest watch.world (.body quiet) ∧
        Executed quiet 1 watch.world.server .hangUp ∧ watch.asked.server.activeConns = 1 ∧
        (watch.asked.server.entry 0).fd = 3 ∧ (watch.world.server.entry 1).fd = 6)
      (by decide +kernel)
  obtain ⟨⟨j, listed, sameFd, _⟩, _⟩ := always watch reached 1 cursor quiet .hangUp honest executed
  rw [Server.Listed, asked] at listed
  have first : j = 0 := by omega
  rw [first, listener, newest] at sameFd
  exact absurd sameFd (by decide)

end LinuxSystemPrograms.PollServerV1Freshness
