import LinuxSystemPrograms.FiniteSums
import LinuxSystemPrograms.StressClientSituations
import Mathlib.Algebra.Order.BigOperators.Group.Finset

/-!
# The accounting of the stress client

`Accounted` says that the statistics are sums over the clients. The inner loops visit
every index once, and `for_each_keeps` carries the invariant through them.
-/

namespace LinuxSystemPrograms.StressClientAccounting

open LinuxSystemPrograms.FiniteSums
open LinuxSystemPrograms.Sockets
open LinuxSystemPrograms.StressClient
open LinuxSystemPrograms.StressClientHandlers
open LinuxSystemPrograms.StressClientSituations
open LinuxSystemPrograms.Transition

set_option autoImplicit false

variable {count : Nat}

def hasFailed (world : World count) (index : Fin count) : Nat :=
  if (index, Outcome.failed) ∈ world.history then 1 else 0

def completedBy (world : World count) (index : Fin count) : Nat :=
  (world.clients index).requestCompleted.toNat

/-- `pending` are the clients that the first loop of `main` has not connected yet. -/
structure Accounted (requests : UInt64) (pending : List (Fin count)) (world : World count) :
    Prop where
  situation : ∀ index, ∃ situation,
    InSituation requests (world.clients index) (world.nextSequence index) situation
  fresh : ∀ index ∈ pending, completedBy world index = 0 ∧ world.nextSequence index = 0 ∧
    ∀ outcome, (index, outcome) ∉ world.history
  given : ∀ index, index ∉ pending →
    ((world.clients index).fd = -1 ↔ ∃ outcome, (index, outcome) ∈ world.history)
  bounded : ∀ index, completedBy world index + hasFailed world index ≤ requests.toNat
  finished : ∀ index, (index, Outcome.finished) ∈ world.history →
    completedBy world index = requests.toNat
  completed : world.stats.completed.toNat = ∑ index, completedBy world index
  failed : world.stats.failed.toNat = ∑ index, hasFailed world index
  latencies : world.stats.latencies.length =
    min world.stats.completed.toNat world.stats.latencyCapacity
  total : world.stats.totalRequests = UInt64.ofNat count * requests
  capacity : world.stats.latencyCapacity = (statsInit (UInt64.ofNat count * requests)).latencyCapacity

theorem put_history (world : World count) (index : Fin count) (served : Served)
    (entry : Fin count × Outcome) :
    entry ∈ (world.put index served).history ↔
      entry ∈ world.history ∨ (entry.1 = index ∧ served.outcome = some entry.2) := by
  obtain ⟨other, outcome⟩ := entry
  simp [World.put, eq_comm, and_comm]

theorem put_completed_other {world : World count} {index other : Fin count} {served : Served}
    (different : other ≠ index) :
    completedBy (world.put index served) other = completedBy world other := by
  simp only [completedBy, World.put, Function.update_of_ne different]

theorem put_completed_same (world : World count) (index : Fin count) (served : Served) :
    completedBy (world.put index served) index =
      served.seat.client.requestCompleted.toNat := by
  simp only [completedBy, World.put, Function.update_self]

theorem put_failed_other {world : World count} {index other : Fin count} {served : Served}
    (different : other ≠ index) :
    hasFailed (world.put index served) other = hasFailed world other := by
  simp only [hasFailed, put_history, different, false_and, or_false]

theorem put_failed_same {world : World count} {index : Fin count} {served : Served}
    (absent : ∀ outcome, (index, outcome) ∉ world.history) :
    hasFailed (world.put index served) index = failuresOf served.outcome := by
  simp only [hasFailed, put_history, absent, true_and, false_or]
  cases served.outcome with
  | none => rfl
  | some outcome => cases outcome <;> rfl

/-- No client has more to account for than its own requests. -/
theorem sum_le_requests {requests : UInt64} {world : World count}
    (bounded : ∀ index, completedBy world index + hasFailed world index ≤ requests.toNat) :
    (∑ index, completedBy world index) + ∑ index, hasFailed world index ≤
      count * requests.toNat := by
  rw [← Finset.sum_add_distrib]
  have total := Finset.sum_le_card_nsmul Finset.univ _ _ fun index _ => bounded index
  simpa using total

theorem put_accounted {requests : UInt64} {pending later : List (Fin count)}
    {world : World count} {index : Fin count} {served : Served} {gained : Nat}
    (product : count * requests.toNat < 2 ^ 64)
    (accounted : Accounted requests pending world)
    (serves : Serves requests (world.seat index) served gained)
    (absent : ∀ outcome, (index, outcome) ∉ world.history)
    (removed : index ∉ later) (others : ∀ other, other ≠ index → (other ∈ later ↔ other ∈ pending)) :
    Accounted requests later (world.put index served) := by
  have bounded : ∀ other, completedBy (world.put index served) other +
      hasFailed (world.put index served) other ≤ requests.toNat := by
    intro other
    by_cases same : other = index
    · subst same
      rw [put_completed_same, put_failed_same absent]
      exact serves.bounded
    · rw [put_completed_other same, put_failed_other same]
      exact accounted.bounded other
  have completedSum : ∑ other, completedBy (world.put index served) other =
      (∑ other, completedBy world other) + gained := by
    refine sum_change index (fun other different => put_completed_other different) ?_
    rw [put_completed_same]
    exact serves.counts
  have failedSum : ∑ other, hasFailed (world.put index served) other =
      (∑ other, hasFailed world other) + failuresOf served.outcome := by
    refine sum_change index (fun other different => put_failed_other different) ?_
    rw [put_failed_same absent, hasFailed, if_neg (absent _), Nat.zero_add]
  have sumBound := sum_le_requests bounded
  have completedEq : (world.put index served).stats.completed.toNat =
      world.stats.completed.toNat + gained := by
    have before := accounted.completed
    rw [World.put, serves.tally.completed, UInt64.toNat_add, UInt64.toNat_ofNat']
    simp only [World.seat]
    omega
  constructor
  · intro other
    by_cases same : other = index
    · subst same
      simpa only [World.put, Function.update_self] using serves.situation
    · simpa only [World.put, Function.update_of_ne same] using accounted.situation other
  · intro other member
    have different : other ≠ index := fun same => removed (same ▸ member)
    rw [put_completed_other different]
    obtain ⟨none, next, noHistory⟩ := accounted.fresh other ((others other different).mp member)
    refine ⟨none, ?_, fun outcome => ?_⟩
    · simpa only [World.put, Function.update_of_ne different] using next
    rw [put_history]
    exact not_or.mpr ⟨noHistory outcome, fun new => different new.1⟩
  · intro other notLater
    by_cases same : other = index
    · subst same
      simp only [put_history, absent, true_and, false_or]
      simp only [World.put, Function.update_self]
      rw [serves.closes, Option.ne_none_iff_exists']
    · have old := accounted.given other fun member => notLater ((others other same).mpr member)
      simp only [put_history, same, false_and, or_false]
      simpa only [World.put, Function.update_of_ne same] using old
  · exact bounded
  · intro other finished
    rw [put_history] at finished
    by_cases same : other = index
    · subst same
      rw [put_completed_same]
      rcases finished with old | ⟨_, now⟩
      · exact absurd old (absent _)
      · exact serves.finished now
    · rw [put_completed_other same]
      exact accounted.finished other (finished.resolve_right fun new => same new.1)
  · rw [completedEq, completedSum, accounted.completed]
  · have before := accounted.failed
    rw [failedSum, World.put, serves.tally.failed, UInt64.toNat_add, UInt64.toNat_ofNat']
    simp only [World.seat]
    omega
  · have before := accounted.latencies
    have capacity : (world.put index served).stats.latencyCapacity =
        world.stats.latencyCapacity := serves.tally.capacity
    have after : (world.put index served).stats.latencies.length = _ :=
      serves.tally.latencies (by simp only [World.seat]; omega)
    simp only [World.seat] at after
    rw [after, completedEq, capacity, before]
    omega
  · exact serves.tally.total.trans accounted.total
  · exact serves.tally.capacity.trans accounted.capacity

/-- A loop over the clients carries an invariant about the indices still to come. -/
theorem for_each_keeps (Good : List (Fin count) → World count → Prop)
    {body : Fin count → Seat → Option Served}
    (keeps : ∀ index rest world served, (index :: rest).Nodup → Good (index :: rest) world →
      body index (world.seat index) = some served → Good rest (world.put index served))
    {indices : List (Fin count)} (distinct : indices.Nodup) {world after : World count}
    (before : Good indices world) (result : World.forEach body indices world = some after) :
    Good [] after := by
  induction indices generalizing world with
  | nil =>
      cases result
      exact before
  | cons index rest ih =>
      rw [World.forEach, Option.bind_eq_some_iff] at result
      obtain ⟨served, first, remaining⟩ := result
      exact ih (List.nodup_cons.mp distinct).2 (keeps index rest world served distinct before first)
        remaining

theorem put_keep (world : World count) (index : Fin count) :
    world.put index (world.seat index).keep = world := by
  simp [World.put, World.seat, Seat.keep]

theorem set_up_situated {requests : UInt64} {seat : Seat} {situation : Situation}
    (situated : InSituation requests seat.client seat.nextSequence situation) (startNs : UInt64) :
    seat.setUp requests startNs = seat.keep := by
  apply set_up_keep
  cases situation with
  | closed => exact Or.inl situated
  | connecting => exact Or.inr (by simp [situated.2.1])
  | writing => exact Or.inr (by simp [situated.2.1])
  | reading => exact Or.inr (by simp [situated.2.1])

/-- No client is `CLIENT_DONE` at the head of the loop, so the first inner loop prepares
nothing. -/
theorem set_up_all_same {requests : UInt64} {pending : List (Fin count)} {world : World count}
    (accounted : Accounted requests pending world) (answers : PassAnswers count) :
    world.setUpAll requests answers = some world := by
  unfold World.setUpAll
  induction List.finRange count with
  | nil => rfl
  | cons index rest ih =>
      obtain ⟨situation, situated⟩ := accounted.situation index
      have kept : (world.seat index).setUp requests (answers.setUpNs index) =
          (world.seat index).keep := set_up_situated situated _
      rw [World.forEach, kept, Option.bind_some, put_keep]
      exact ih

theorem boot_accounted (requests : UInt64) :
    Accounted requests (List.finRange count) (World.boot count requests) where
  situation _ := ⟨.closed, rfl⟩
  fresh _ _ := ⟨rfl, rfl, fun _ => List.not_mem_nil⟩
  given index absent := absurd (List.mem_finRange index) absent
  bounded _ := Nat.zero_le _
  finished _ member := absurd member List.not_mem_nil
  completed := by simp [World.boot, statsInit, completedBy, Client.zeroed]
  failed := by simp [World.boot, statsInit, hasFailed]
  latencies := by simp [World.boot, statsInit]
  total := rfl
  capacity := rfl

/-- Opening the connections: a failed one is counted and never opened. -/
theorem connect_serves {requests : UInt64} {seat : Seat} (positive : 0 < requests.toNat)
    (nothingSent : seat.nextSequence = 0) (completed : seat.client.requestCompleted.toNat = 0)
    {connected : Except Errno Fd} (valid : ∀ fd ∈ connected.toOption, 0 ≤ fd) :
    Serves requests seat (seat.connect connected) 0 := by
  cases connected with
  | error reason =>
      exact
        { situation := ⟨.closed, rfl⟩
          closes := iff_of_true rfl fun open' => by cases open'
          counts := completed.symm
          bounded := positive
          finished := fun finished => by cases finished
          tally := (recorded_none seat.stats).failing }
  | ok fd =>
      have isOpen : fd ≠ -1 := fd_ne_of_valid (valid fd rfl)
      exact
        { situation := ⟨.connecting, isOpen, rfl, nothingSent, rfl⟩
          closes := iff_of_false isOpen fun closed => closed rfl
          counts := completed.symm
          bounded := Nat.zero_le _
          finished := fun finished => by cases finished
          tally := (recorded_none seat.stats).tally }

theorem for_each_phase {body : Fin count → Seat → Option Served} {indices : List (Fin count)}
    {world after : World count} (result : World.forEach body indices world = some after) :
    after.phase = world.phase := by
  induction indices generalizing world with
  | nil =>
      cases result
      rfl
  | cons index rest ih =>
      rw [World.forEach, Option.bind_eq_some_iff] at result
      obtain ⟨served, _, remaining⟩ := result
      have same : after.phase = (world.put index served).phase := ih remaining
      exact same

/-- Every client given up by a failure had completed all its requests but one. -/
def LostAtLast (requests : UInt64) (world : World count) : Prop :=
  ∀ index, (index, Outcome.failed) ∈ world.history →
    completedBy world index + 1 = requests.toNat

theorem put_lost_at_last {requests : UInt64} {world : World count} {index : Fin count}
    {served : Served} (absent : ∀ outcome, (index, outcome) ∉ world.history)
    (before : LostAtLast requests world)
    (atLast : served.outcome = some .failed →
      served.seat.client.requestCompleted.toNat + 1 = requests.toNat) :
    LostAtLast requests (world.put index served) := by
  intro other failed
  rw [put_history] at failed
  by_cases same : other = index
  · subst same
    rw [put_completed_same]
    rcases failed with old | ⟨_, now⟩
    · exact absurd old (absent _)
    · exact atLast now
  · rw [put_completed_other same]
    exact before other (failed.resolve_right fun new => same new.1)

theorem connect_all_accounted {requests : UInt64} (product : count * requests.toNat < 2 ^ 64)
    (positive : 0 < requests.toNat) {world after : World count}
    {connected : Fin count → Except Errno Fd}
    (valid : ∀ index, ∀ fd ∈ (connected index).toOption, 0 ≤ fd)
    (accounted : Accounted requests (List.finRange count) world)
    (result : world.connectAll connected = some after) :
    Accounted requests [] after ∧
      ((∀ index, (connected index).isOk = false → 1 = requests.toNat) →
        LostAtLast requests world → LostAtLast requests after) := by
  refine for_each_keeps (fun rest now => Accounted requests rest now ∧
    ((∀ index, (connected index).isOk = false → 1 = requests.toNat) →
      LostAtLast requests world → LostAtLast requests now)) ?_ (List.nodup_finRange count)
    ⟨accounted, fun _ before => before⟩ result
  rintro index rest now served distinct ⟨before, lost⟩ body
  cases body
  obtain ⟨completed, next, absent⟩ := before.fresh index List.mem_cons_self
  have seatCompleted : (now.seat index).client.requestCompleted.toNat = 0 := completed
  have serves := connect_serves positive next seatCompleted (valid index)
  constructor
  · apply put_accounted product before serves absent (List.nodup_cons.mp distinct).1
    intro other different
    simp [different]
  · intro allowed atStart
    apply put_lost_at_last absent (lost allowed atStart)
    intro failed
    rw [serves.counts, seatCompleted]
    apply allowed index
    cases opened : connected index with
    | error reason => rfl
    | ok fd =>
        rw [opened] at failed
        cases failed

/-- Serving one client, whatever its situation. -/
theorem serve_accounted {requests : UInt64} (product : count * requests.toNat < 2 ^ 64)
    (positive : 0 < requests.toNat) {world : World count} {index : Fin count}
    {revents : PollEvents} {answers : Seat.Answers} {served : Served}
    (accounted : Accounted requests [] world)
    (within : revents.Within (requested (world.clients index)))
    (result : (world.seat index).serve requests revents answers = some served) :
    Accounted requests [] (world.put index served) ∧
      ((Fails revents answers (world.clients index) →
          completedBy world index + 1 = requests.toNat) →
        LostAtLast requests world → LostAtLast requests (world.put index served)) := by
  obtain ⟨situation, situated⟩ := accounted.situation index
  by_cases closed : (world.clients index).fd = -1
  · have seatClosed : (world.seat index).client.fd = -1 := closed
    have kept : served = (world.seat index).keep := by
      unfold Seat.serve at result
      rw [if_pos seatClosed] at result
      exact (Option.some.inj result).symm
    subst kept
    rw [put_keep]
    exact ⟨accounted, fun _ before => before⟩
  · have absent : ∀ outcome, (index, outcome) ∉ world.history := by
      intro outcome member
      exact closed ((accounted.given index List.not_mem_nil).mpr ⟨outcome, member⟩)
    have treated : ∃ gained, Treats requests revents answers (world.seat index) served gained := by
      cases situation with
      | closed => exact absurd situated closed
      | connecting => exact ⟨0, serve_connecting positive situated result⟩
      | writing => exact ⟨0, serve_writing situated within result⟩
      | reading => exact serve_reading situated result
    obtain ⟨gained, treats⟩ := treated
    constructor
    · exact put_accounted product accounted treats.serves absent List.not_mem_nil
        fun _ _ => Iff.rfl
    · intro allowed before
      apply put_lost_at_last absent before
      intro failed
      obtain ⟨none, fails⟩ := treats.failing failed
      have last := allowed fails
      rw [treats.serves.counts, none]
      exact last

theorem serve_all_accounted {requests : UInt64} (product : count * requests.toNat < 2 ^ 64)
    (positive : 0 < requests.toNat) {world after : World count} {answers : PassAnswers count}
    {revents : Fin count → PollEvents} (accounted : Accounted requests [] world)
    (within : ∀ index, (revents index).Within (requested (world.clients index)))
    (result : world.serveAll requests answers revents = some after) :
    Accounted requests [] after ∧
      ((∀ index, Fails (revents index) (answers.client index) (world.clients index) →
          completedBy world index + 1 = requests.toNat) →
        LostAtLast requests world → LostAtLast requests after) := by
  -- until its turn comes a client is as it was when `poll` was called
  have all := for_each_keeps (fun rest now => (Accounted requests [] now ∧
      ((∀ index, Fails (revents index) (answers.client index) (world.clients index) →
          completedBy world index + 1 = requests.toNat) →
        LostAtLast requests world → LostAtLast requests now)) ∧
      ∀ index ∈ rest, now.clients index = world.clients index)
    ?_ (List.nodup_finRange count) ⟨⟨accounted, fun _ before => before⟩, fun _ _ => rfl⟩ result
  · exact all.1
  · rintro index rest now served distinct ⟨⟨before, lost⟩, unserved⟩ body
    have same := unserved index List.mem_cons_self
    have asked := within index
    rw [← same] at asked
    obtain ⟨kept, keptLost⟩ := serve_accounted product positive before asked body
    refine ⟨⟨kept, ?_⟩, ?_⟩
    · intro allowed atStart
      apply keptLost _ (lost allowed atStart)
      rw [completedBy, same]
      exact allowed index
    · intro other member
      have different : other ≠ index := fun equal =>
        (List.nodup_cons.mp distinct).1 (equal ▸ member)
      simp only [World.put, Function.update_of_ne different]
      exact unserved other (List.mem_cons_of_mem _ member)

/-- The phase and the signal flag take no part in the accounts. -/
theorem Accounted.restate {requests : UInt64} {pending : List (Fin count)} {world : World count}
    (accounted : Accounted requests pending world) (phase : Phase) (stop : Bool) :
    Accounted requests pending { world with phase := phase, stopRequested := stop } :=
  ⟨accounted.situation, accounted.fresh, accounted.given, accounted.bounded,
    accounted.finished, accounted.completed, accounted.failed, accounted.latencies,
    accounted.total, accounted.capacity⟩

structure Head (requests : UInt64) (world : World count) : Prop where
  starting : world.phase = .starting → Accounted requests (List.finRange count) world
  looping : world.phase ≠ .starting → Accounted requests [] world

/-- The steps in which a client is lost to a failure only while it is on its last request. -/
def LosesAtLast (requests : UInt64) (world : World count) : Label count → Prop
  | .connect connected _ => ∀ index, (connected index).isOk = false → 1 = requests.toNat
  | .pass answers =>
      ∀ revents ∈ answers.poll.toOption, ∀ index,
        Fails (revents index) (answers.client index) (world.clients index) →
          completedBy world index + 1 = requests.toNat

instance (requests : UInt64) (world : World count) : (label : Label count) →
    Decidable (LosesAtLast requests world label)
  | .connect connected _ =>
      inferInstanceAs (Decidable (∀ index, (connected index).isOk = false → _))
  | .pass answers => inferInstanceAs (Decidable (∀ revents ∈ answers.poll.toOption, _))

theorem pass_accounted {requests : UInt64} (product : count * requests.toNat < 2 ^ 64)
    (positive : 0 < requests.toNat) {world after : World count} {answers : PassAnswers count}
    (honest : Honest world (.pass answers)) (accounted : Accounted requests [] world)
    (result : world.pass requests answers = some after) :
    Accounted requests [] after ∧
      (LosesAtLast requests world (.pass answers) →
        LostAtLast requests world → LostAtLast requests after) := by
  unfold World.pass at result
  rw [set_up_all_same accounted, Option.bind_some] at result
  cases polled : answers.poll with
  | error reason =>
      rw [polled] at result
      have stays : Accounted requests [] after ∧
          (LostAtLast requests world → LostAtLast requests after) := by
        cases reason with
        | eintr =>
            cases result
            exact ⟨accounted, fun before => before⟩
        | eagain | einprogress | emsgsize | eproto | econnreset | other =>
            cases result
            exact ⟨accounted.restate _ _, fun before => before⟩
      exact ⟨stays.1, fun _ => stays.2⟩
  | ok revents =>
      rw [polled] at result
      have known : revents ∈ answers.poll.toOption := by rw [polled]; rfl
      obtain ⟨kept, lost⟩ := serve_all_accounted product positive accounted
        (fun index => (honest revents known index).1) result
      exact ⟨kept, fun allowed => lost (allowed revents known)⟩

theorem pass_phase {requests : UInt64} {world after : World count} {answers : PassAnswers count}
    (accounted : Accounted requests [] world) (looping : world.phase = .looping)
    (result : world.pass requests answers = some after) : after.phase ≠ .starting := by
  unfold World.pass at result
  rw [set_up_all_same accounted, Option.bind_some] at result
  split at result
  · cases result
    simp [looping]
  · cases result
    simp
  · rw [for_each_phase result, looping]
    simp

theorem step_accounted {requests : UInt64} (product : count * requests.toNat < 2 ^ 64)
    (positive : 0 < requests.toNat) {world after : World count} {label : Label count}
    (head : Head requests world) (taken : (system count requests).step world label after) :
    Head requests after ∧
      (LosesAtLast requests world label →
        LostAtLast requests world → LostAtLast requests after) := by
  obtain ⟨honest, advanced⟩ := taken
  cases label with
  | connect connected interrupt =>
      simp only [World.advance] at advanced
      split_ifs at advanced with starting
      obtain ⟨opened, result, rfl⟩ := Option.map_eq_some_iff.mp advanced
      obtain ⟨kept, lost⟩ :=
        connect_all_accounted product positive honest (head.starting starting) result
      exact ⟨⟨fun impossible => Phase.noConfusion impossible, fun _ => kept.restate _ _⟩, lost⟩
  | pass answers =>
      simp only [World.advance] at advanced
      split_ifs at advanced with running
      obtain ⟨passed, result, rfl⟩ := Option.map_eq_some_iff.mp advanced
      have accounted := head.looping (by rw [running.1]; simp)
      obtain ⟨kept, lost⟩ := pass_accounted product positive honest accounted result
      have later := pass_phase accounted running.1 result
      exact ⟨⟨fun impossible => absurd impossible later, fun _ => kept.restate _ _⟩, lost⟩

theorem reachable_head {requests : UInt64} (product : count * requests.toNat < 2 ^ 64)
    (positive : 0 < requests.toNat) {world : World count}
    (reached : Reachable (system count requests) world) : Head requests world := by
  apply reachable_invariant _ _ reached
  · rintro _ rfl
    exact ⟨fun _ => boot_accounted requests, fun other => absurd rfl other⟩
  · intro state label after _ head taken
    exact (step_accounted product positive head taken).1

theorem situation_unique {requests : UInt64} {client : Client} {nextSequence : UInt64}
    {left right : Situation} (leftSituated : InSituation requests client nextSequence left)
    (rightSituated : InSituation requests client nextSequence right) : left = right := by
  cases left with
  | closed =>
      cases right with
      | closed => rfl
      | connecting => exact absurd leftSituated rightSituated.1
      | writing => exact absurd leftSituated rightSituated.1
      | reading => exact absurd leftSituated rightSituated.1
  | connecting =>
      cases right with
      | closed => exact absurd rightSituated leftSituated.1
      | connecting => rfl
      | writing => cases leftSituated.2.1.symm.trans rightSituated.2.1
      | reading => cases leftSituated.2.1.symm.trans rightSituated.2.1
  | writing =>
      cases right with
      | closed => exact absurd rightSituated leftSituated.1
      | connecting => cases leftSituated.2.1.symm.trans rightSituated.2.1
      | writing => rfl
      | reading => cases leftSituated.2.1.symm.trans rightSituated.2.1
  | reading =>
      cases right with
      | closed => exact absurd rightSituated leftSituated.1
      | connecting => cases leftSituated.2.1.symm.trans rightSituated.2.1
      | writing => cases leftSituated.2.1.symm.trans rightSituated.2.1
      | reading => rfl

/-- The clients counted as failed are the closed ones with a request missing. -/
theorem failed_iff {requests : UInt64} {world : World count}
    (accounted : Accounted requests [] world) (index : Fin count) :
    (index, Outcome.failed) ∈ world.history ↔
      (world.clients index).fd = -1 ∧ completedBy world index < requests.toNat := by
  constructor
  · intro failed
    have bounded := accounted.bounded index
    rw [hasFailed, if_pos failed] at bounded
    exact ⟨(accounted.given index List.not_mem_nil).mpr ⟨_, failed⟩, by omega⟩
  · rintro ⟨closed, missing⟩
    obtain ⟨outcome, member⟩ := (accounted.given index List.not_mem_nil).mp closed
    cases outcome with
    | finished => exact absurd (accounted.finished index member) (by omega)
    | failed => exact member

/-- At the head of the main loop every client is in exactly one of four situations, and the
statistics are what the clients say. A client counted as failed is closed with a request
missing, and no client is counted twice. -/
theorem clients_accounted (requests : UInt64) (positive : 0 < requests.toNat)
    (product : count * requests.toNat < 2 ^ 64) {world : World count}
    (reached : Reachable (system count requests) world) (looping : world.phase = .looping) :
    (∀ index, ∃! situation,
        InSituation requests (world.clients index) (world.nextSequence index) situation) ∧
      world.stats.completed.toNat = ∑ index, (world.clients index).requestCompleted.toNat ∧
      world.stats.failed.toNat =
        (Finset.univ.filter fun index => (index, Outcome.failed) ∈ world.history).card ∧
      (∀ index, (index, Outcome.failed) ∈ world.history ↔
        (world.clients index).fd = -1 ∧
          (world.clients index).requestCompleted.toNat < requests.toNat) ∧
      world.stats.completed.toNat + world.stats.failed.toNat ≤ count * requests.toNat ∧
      world.stats.latencies.length =
        min world.stats.completed.toNat world.stats.latencyCapacity := by
  have accounted := (reachable_head product positive reached).looping (by rw [looping]; simp)
  refine ⟨?_, accounted.completed, ?_, ?_, ?_, accounted.latencies⟩
  · intro index
    obtain ⟨situation, situated⟩ := accounted.situation index
    exact ⟨situation, situated, fun other otherSituated =>
      situation_unique otherSituated situated⟩
  · rw [accounted.failed, Finset.card_filter]
    rfl
  · exact failed_iff accounted
  · rw [accounted.completed, accounted.failed]
    exact sum_le_requests accounted.bounded

/-- The answers of a pass in which `poll` reports `revents` for the only client. -/
def quiet (revents : PollEvents) : PassAnswers 1 where
  setUpNs _ := 0
  poll := .ok fun _ => revents
  client _ :=
    { soError := .ok none
      sends := []
      recvs := []
      doneNs := 2
      startNs := 1 }
  interrupt := false

/-- One client sends `bench-0-0` and a newline, and gets it back in two parts. -/
def oneRequest : List (Label 1) :=
  let out : PassAnswers 1 := quiet ⟨false, true, false, false, false⟩
  let in' : PassAnswers 1 := quiet ⟨true, false, false, false, false⟩
  let answers := out.client 0
  [.connect (fun _ => .ok 3) false, .pass out,
    .pass { out with client := fun _ => { answers with sends := [.ok 4, .error .eintr, .ok 9] } },
    .pass { in' with client := fun _ =>
      { answers with recvs := [.ok [98, 101, 110, 99, 104, 45, 48], .error .eagain] } },
    .pass { in' with client := fun _ => { answers with recvs := [.ok [45, 48, newline]] } }]

theorem clients_accounted_one_request :
    ∃ world : World 1, Reachable (system 1 1) world ∧ world.phase = .looping ∧
      world.stats.completed = 1 ∧
      world.stats.latencies.length =
        min world.stats.completed.toNat world.stats.latencyCapacity := by
  obtain ⟨world, reached, looping, completed⟩ := exists_reachable_of_run (next_sound 1) rfl
    oneRequest (fun world => world.phase = .looping ∧ world.stats.completed = 1)
    (by decide +kernel)
  have accounts := clients_accounted 1 (by decide) (by decide) reached looping
  exact ⟨world, reached, looping, completed, accounts.2.2.2.2.2⟩

/-! ## Whether the loop can end -/

/-- The loop goes on although no connection is left. -/
structure Stuck (world : World count) : Prop where
  looping : world.phase = .looping
  closed : ∀ index, (world.clients index).fd = -1
  running : world.Running

theorem running_iff {requests : UInt64} (product : count * requests.toNat < 2 ^ 64)
    {world : World count} (accounted : Accounted requests [] world) :
    world.Running ↔ world.stopRequested = false ∧
      (∑ index, completedBy world index) + ∑ index, hasFailed world index <
        count * requests.toNat := by
  have bound := sum_le_requests accounted.bounded
  have completed := accounted.completed
  have failed := accounted.failed
  have sum : (world.stats.completed + world.stats.failed).toNat =
      (∑ index, completedBy world index) + ∑ index, hasFailed world index := by
    rw [UInt64.toNat_add]
    omega
  have total : world.stats.totalRequests.toNat = count * requests.toNat := by
    rw [accounted.total, UInt64.toNat_mul, UInt64.toNat_ofNat', Nat.mod_mul_mod,
      Nat.mod_eq_of_lt product]
  unfold World.Running
  rw [UInt64.lt_iff_toNat_lt, sum, total]

/-- Without a connection left, every request is accounted for exactly when no client was
lost with more than its last request missing. -/
theorem closed_sum_iff {requests : UInt64} {world : World count}
    (accounted : Accounted requests [] world)
    (closed : ∀ index, (world.clients index).fd = -1) :
    (∑ index, completedBy world index) + ∑ index, hasFailed world index =
      count * requests.toNat ↔ LostAtLast requests world := by
  have constant : count * requests.toNat = ∑ _index : Fin count, requests.toNat := by simp
  rw [← Finset.sum_add_distrib, constant,
    Finset.sum_eq_sum_iff_of_le fun index _ => accounted.bounded index]
  constructor
  · intro exact index failed
    have whole := exact index (Finset.mem_univ index)
    rwa [hasFailed, if_pos failed] at whole
  · intro lost index _
    obtain ⟨outcome, member⟩ := (accounted.given index List.not_mem_nil).mp (closed index)
    cases outcome with
    | failed =>
        rw [hasFailed, if_pos member]
        exact lost index member
    | finished =>
        have done := accounted.finished index member
        have bounded := accounted.bounded index
        omega

theorem reachable_lost_at_last {requests : UInt64} (product : count * requests.toNat < 2 ^ 64)
    (positive : 0 < requests.toNat) {world : World count}
    (reached : Reachable (guarded (system count requests) (LosesAtLast requests)) world) :
    LostAtLast requests world := by
  have both : Head requests world ∧ LostAtLast requests world := by
    apply reachable_invariant _ _ reached
    · rintro _ rfl
      refine ⟨⟨fun _ => boot_accounted requests, fun other => absurd rfl other⟩, ?_⟩
      exact fun index member => absurd member List.not_mem_nil
    · rintro state label after _ ⟨head, lost⟩ ⟨allowed, taken⟩
      obtain ⟨afterHead, afterLost⟩ := step_accounted product positive head taken
      exact ⟨afterHead, afterLost allowed lost⟩
  exact both.2

/-- The main loop can end whenever no connection is left, if clients are lost only on their
last request. -/
theorem never_stuck_if_lost_at_last (requests : UInt64) (positive : 0 < requests.toNat)
    (product : count * requests.toNat < 2 ^ 64) {world : World count}
    (reached : Reachable (guarded (system count requests) (LosesAtLast requests)) world) :
    ¬ Stuck world := by
  intro stuck
  have head := reachable_head product positive (reachable_of_guarded reached)
  have accounted := head.looping (by rw [stuck.looping]; simp)
  have lost := reachable_lost_at_last product positive reached
  have whole := (closed_sum_iff accounted stuck.closed).mpr lost
  have running := ((running_iff product accounted).mp stuck.running).2
  omega

theorem never_stuck_if_lost_at_last_connect_failure :
    ∃ world : World 1, Reachable (guarded (system 1 1) (LosesAtLast 1)) world ∧
      world.stats.failed = 1 ∧ ¬ Stuck world := by
  obtain ⟨world, reached, failed⟩ := exists_reachable_of_run
    (guarded_next_sound (LosesAtLast 1) (next_sound 1)) rfl
    [.connect (fun _ => .error (.other 111)) false]
    (fun world : World 1 => world.stats.failed = 1)
    (by decide +kernel)
  exact ⟨world, reached, failed, never_stuck_if_lost_at_last 1 (by decide) (by decide) reached⟩

/-- One client with two requests whose connection is refused. -/
theorem refused_client_stuck :
    ¬ ∀ (count : Nat) (requests : UInt64), 0 < count → 0 < requests.toNat →
      count * requests.toNat < 2 ^ 64 →
        ∀ world : World count, Reachable (system count requests) world → ¬ Stuck world := by
  intro never
  obtain ⟨world, reached, looping, closed, running⟩ := exists_reachable_of_run (next_sound 2) rfl
    [.connect (fun _ => .error (.other 111)) false]
    (fun world : World 1 => world.phase = .looping ∧ (∀ index, (world.clients index).fd = -1) ∧
      world.Running)
    (by decide +kernel)
  exact never 1 2 (by decide) (by decide) (by decide) world reached ⟨looping, closed, running⟩

end LinuxSystemPrograms.StressClientAccounting
