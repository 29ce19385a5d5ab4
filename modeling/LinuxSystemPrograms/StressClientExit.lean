import LinuxSystemPrograms.StressClientAccounting

/-!
# The exit status of the stress client

`main` computes it from `stats.failed` and `stop_requested` alone. A `poll` that fails ends
the loop without a trace in either of them, so a run is judged rightly as long as its passes
are `Reflected`.
-/

namespace LinuxSystemPrograms.StressClientExit

open LinuxSystemPrograms.Sockets
open LinuxSystemPrograms.StressClient
open LinuxSystemPrograms.StressClientAccounting
open LinuxSystemPrograms.Transition

set_option autoImplicit false

inductive ExitStatus where
  | success
  | failure
  deriving DecidableEq, Repr

variable {count : Nat}

def Ended (world : World count) : Prop :=
  world.phase = .left ∨ (world.phase = .looping ∧ ¬ world.Running)

instance (world : World count) : Decidable (Ended world) :=
  inferInstanceAs (Decidable (_ ∨ _ ∧ _))

/-- What `main` returns. `interrupt` is a signal that comes between the loop and `return`. -/
def exitStatus (world : World count) (interrupt : Bool) : ExitStatus :=
  if world.stats.failed = 0 ∧ (world.stopRequested || interrupt) = false then .success
  else .failure

/-- The loop was left by a signal, by a failing `poll`, or with a failure. -/
def LeftEarly (world : World count) : Prop :=
  world.stopRequested = true ∨ world.phase = .left ∨ world.stats.failed ≠ 0

structure Truthful (requests : UInt64) (world : World count) : Prop where
  success : ∀ interrupt, exitStatus world interrupt = .success →
    ∀ index, (world.clients index).requestCompleted = requests
  failure : ∀ interrupt, LeftEarly world → exitStatus world interrupt = .failure

def pollFails (answers : PassAnswers count) : Bool :=
  match answers.poll with
  | .ok _ => false
  | .error .eintr => false
  | .error _ => true

/-- The steps in which `poll` fails only when the exit status is a failure anyway. -/
def Reflected (world : World count) : Label count → Prop
  | .connect _ _ => True
  | .pass answers =>
      pollFails answers = true → world.stats.failed ≠ 0 ∨ answers.interrupt = true

instance (world : World count) : (label : Label count) → Decidable (Reflected world label)
  | .connect _ _ => inferInstanceAs (Decidable True)
  | .pass _ => inferInstanceAs (Decidable (_ → _ ∨ _))

theorem exit_success_iff (world : World count) (interrupt : Bool) :
    exitStatus world interrupt = .success ↔
      world.stats.failed = 0 ∧ world.stopRequested = false ∧ interrupt = false := by
  unfold exitStatus
  split_ifs with both
  · simpa using both
  · simpa using both

theorem exit_failure_iff (world : World count) (interrupt : Bool) :
    exitStatus world interrupt = .failure ↔
      ¬ (world.stats.failed = 0 ∧ world.stopRequested = false ∧ interrupt = false) := by
  rw [← exit_success_iff]
  cases exitStatus world interrupt <;> simp

/-- A failure or a signal is enough to be judged rightly. -/
theorem truthful_of_failure {requests : UInt64} {world : World count}
    (reflected : world.stats.failed ≠ 0 ∨ world.stopRequested = true) :
    Truthful requests world := by
  have never : ∀ interrupt, exitStatus world interrupt = .failure := by
    intro interrupt
    rw [exit_failure_iff]
    rintro ⟨noFailure, noSignal, _⟩
    rcases reflected with failed | signal
    · exact failed noFailure
    · rw [signal] at noSignal
      cases noSignal
  constructor
  · intro interrupt success
    rw [never interrupt] at success
    cases success
  · intro interrupt _
    exact never interrupt

/-- With nothing failed, the loop condition fails only when every client is through. -/
theorem all_completed {requests : UInt64} (product : count * requests.toNat < 2 ^ 64)
    {world : World count} (accounted : Accounted requests [] world)
    (noFailure : world.stats.failed = 0) (noSignal : world.stopRequested = false)
    (stopped : ¬ world.Running) (index : Fin count) :
    (world.clients index).requestCompleted = requests := by
  have failedSum := accounted.failed
  rw [noFailure] at failedSum
  have constant : count * requests.toNat = ∑ _index : Fin count, requests.toNat := by simp
  have each : ∀ other, completedBy world other ≤ requests.toNat := fun other =>
    Nat.le_trans (Nat.le_add_right _ _) (accounted.bounded other)
  have whole : ∑ other, completedBy world other = ∑ _other : Fin count, requests.toNat := by
    have enough : ¬ (∑ other, completedBy world other) + ∑ other, hasFailed world other <
        count * requests.toNat :=
      fun less => stopped ((running_iff product accounted).mpr ⟨noSignal, less⟩)
    have bound := sum_le_requests accounted.bounded
    have zero : (0 : UInt64).toNat = 0 := rfl
    omega
  have done := (Finset.sum_eq_sum_iff_of_le fun other _ => each other).mp whole index
    (Finset.mem_univ index)
  exact UInt64.toNat_inj.mp done

theorem truthful_of_not_running {requests : UInt64} (product : count * requests.toNat < 2 ^ 64)
    {world : World count} (accounted : Accounted requests [] world)
    (looping : world.phase = .looping) (stopped : ¬ world.Running) : Truthful requests world := by
  by_cases noFailure : world.stats.failed = 0
  · cases noSignal : world.stopRequested with
    | true => exact truthful_of_failure (Or.inr noSignal)
    | false =>
        constructor
        · intro _ _ index
          exact all_completed product accounted noFailure noSignal stopped index
        · intro interrupt early
          rcases early with signal | left | failed
          · rw [signal] at noSignal
            cases noSignal
          · rw [looping] at left
            cases left
          · exact absurd noFailure failed
  · exact truthful_of_failure (Or.inl noFailure)

/-- A pass in which `poll` fails for good changes the phase only. -/
theorem pass_fails {requests : UInt64} {world after : World count} {answers : PassAnswers count}
    (accounted : Accounted requests [] world) (fails : pollFails answers = true)
    (result : world.pass requests answers = some after) :
    after = { world with phase := .left } := by
  unfold World.pass at result
  rw [set_up_all_same accounted, Option.bind_some] at result
  unfold pollFails at fails
  split at result
  · rename_i interrupted
    rw [interrupted] at fails
    cases fails
  · exact (Option.some.inj result).symm
  · rename_i polled
    rw [polled] at fails
    cases fails

theorem pass_goes_on {requests : UInt64} {world after : World count} {answers : PassAnswers count}
    (accounted : Accounted requests [] world) (goesOn : pollFails answers = false)
    (result : world.pass requests answers = some after) : after.phase = world.phase := by
  unfold World.pass at result
  rw [set_up_all_same accounted, Option.bind_some] at result
  unfold pollFails at goesOn
  split at result
  · exact (Option.some.inj result) ▸ rfl
  · rename_i reason other polled
    rw [polled] at goesOn
    cases reason with
    | eintr => exact (other rfl).elim
    | eagain | einprogress | emsgsize | eproto | econnreset | other => cases goesOn
  · exact for_each_phase result

/-- A step into the end of the loop is judged rightly exactly when it is reflected. -/
theorem step_truthful_iff {requests : UInt64} (product : count * requests.toNat < 2 ^ 64)
    (positive : 0 < requests.toNat) {world after : World count} {label : Label count}
    (reached : Reachable (system count requests) world)
    (taken : (system count requests).step world label after) (ended : Ended after) :
    Truthful requests after ↔ Reflected world label := by
  have accounted : after.phase ≠ .starting → Accounted requests [] after :=
    (reachable_head product positive (.next label reached taken)).looping
  have before := reachable_head product positive reached
  obtain ⟨_, advanced⟩ := taken
  cases label with
  | connect connected interrupt =>
      simp only [World.advance] at advanced
      split_ifs at advanced
      obtain ⟨opened, _, rfl⟩ := Option.map_eq_some_iff.mp advanced
      have stopped := (ended.resolve_left (by simp)).2
      exact iff_of_true
        (truthful_of_not_running product (accounted (by simp)) rfl stopped) trivial
  | pass answers =>
      simp only [World.advance] at advanced
      split_ifs at advanced with running
      obtain ⟨passed, result, rfl⟩ := Option.map_eq_some_iff.mp advanced
      have head := before.looping (by rw [running.1]; simp)
      cases fails : pollFails answers with
      | false =>
          have looping := (pass_goes_on head fails result).trans running.1
          have stopped := (ended.resolve_left (by simp [looping])).2
          exact iff_of_true
            (truthful_of_not_running product (accounted (by simp [looping])) looping stopped)
            (by simp [Reflected, fails])
      | true =>
          rw [pass_fails head fails result]
          constructor
          · intro truthful _
            by_contra unseen
            rw [not_or, not_not, Bool.not_eq_true] at unseen
            have failure := truthful.failure false (Or.inr (Or.inl rfl))
            rw [exit_failure_iff] at failure
            exact failure ⟨unseen.1, by simp [running.2.1, unseen.2], rfl⟩
          · intro reflected
            apply truthful_of_failure
            rcases reflected fails with failed | signal
            · exact Or.inl failed
            · exact Or.inr (by simp [signal])

/-- A pass that is not reflected ends the loop. -/
theorem ended_of_unreflected {requests : UInt64} (product : count * requests.toNat < 2 ^ 64)
    (positive : 0 < requests.toNat) {world after : World count} {label : Label count}
    (reached : Reachable (system count requests) world)
    (taken : (system count requests).step world label after)
    (unreflected : ¬ Reflected world label) : Ended after := by
  obtain ⟨_, advanced⟩ := taken
  cases label with
  | connect connected interrupt => exact absurd trivial unreflected
  | pass answers =>
      simp only [World.advance] at advanced
      split_ifs at advanced with running
      obtain ⟨passed, result, rfl⟩ := Option.map_eq_some_iff.mp advanced
      have head := (reachable_head product positive reached).looping (by rw [running.1]; simp)
      cases fails : pollFails answers with
      | false => exact absurd (by simp [Reflected, fails]) unreflected
      | true =>
          rw [pass_fails head fails result]
          exact Or.inl rfl

/-- In every run whose passes are reflected the exit status is right; the first pass that is
not reflected ends the run with a wrong one. -/
theorem exit_status_truthful (requests : UInt64) (positive : 0 < requests.toNat)
    (product : count * requests.toNat < 2 ^ 64) :
    (∀ world, Reachable (guarded (system count requests) Reflected) world → Ended world →
      Truthful requests world) ∧
    ∀ world label after, Reachable (system count requests) world →
      (system count requests).step world label after → ¬ Reflected world label →
        Ended after ∧ ¬ Truthful requests after := by
  constructor
  · intro world reached ended
    cases reached with
    | start initial =>
        rcases ended with left | ⟨looping, _⟩
        · rw [show world = World.boot count requests from initial] at left
          cases left
        · rw [show world = World.boot count requests from initial] at looping
          cases looping
    | next label prior taken =>
        exact (step_truthful_iff product positive (reachable_of_guarded prior) taken.2 ended).mpr
          taken.1
  · intro world label after reached taken unreflected
    have ended := ended_of_unreflected product positive reached taken unreflected
    exact ⟨ended, fun truthful =>
      unreflected ((step_truthful_iff product positive reached taken ended).mp truthful)⟩

theorem exit_status_truthful_one_request :
    ∃ world : World 1, Reachable (guarded (system 1 1) Reflected) world ∧
      exitStatus world false = .success ∧ ∀ index, (world.clients index).requestCompleted = 1 := by
  obtain ⟨world, reached, ended, success⟩ := exists_reachable_of_run
    (guarded_next_sound Reflected (next_sound 1)) rfl oneRequest
    (fun world : World 1 => Ended world ∧ exitStatus world false = .success)
    (by decide +kernel)
  have truthful := (exit_status_truthful 1 (by decide) (by decide)).1 world reached ended
  exact ⟨world, reached, success, truthful.success false success⟩

/-- `poll` runs out of memory before the only client has sent anything. -/
theorem failing_poll_exits_with_success :
    ¬ ∀ (count : Nat) (requests : UInt64), 0 < count → count < 2 ^ 31 → 0 < requests.toNat →
      ∀ world : World count, Reachable (system count requests) world → Ended world →
        Truthful requests world := by
  intro always
  obtain ⟨world, reached, ended, success, nothing⟩ := exists_reachable_of_run (next_sound 1) rfl
    [.connect (fun _ => .ok 3) false, .pass { quiet noEvents with poll := .error (.other 12) }]
    (fun world : World 1 => Ended world ∧ exitStatus world false = .success ∧
      (world.clients 0).requestCompleted = 0)
    (by decide +kernel)
  have truthful := always 1 1 (by decide) (by decide) (by decide) world reached ended
  have done := truthful.success false success 0
  rw [nothing] at done
  cases done

/-- Two clients with `2 ^ 63` requests each: `total_requests` is zero, and the loop is not
entered. -/
theorem wrapped_total_exits_with_success :
    ∃ world : World 2, Reachable (guarded (system 2 0x8000000000000000) Reflected) world ∧
      Ended world ∧ exitStatus world false = .success ∧
      (world.clients 0).requestCompleted = 0 :=
  exists_reachable_of_run (guarded_next_sound Reflected (next_sound 0x8000000000000000)) rfl
    [.connect (fun _ => .ok 3) false]
    (fun world : World 2 => Ended world ∧ exitStatus world false = .success ∧
      (world.clients 0).requestCompleted = 0)
    (by decide +kernel)

end LinuxSystemPrograms.StressClientExit
