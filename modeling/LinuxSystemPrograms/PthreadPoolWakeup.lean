import LinuxSystemPrograms.ConditionVariable
import LinuxSystemPrograms.PthreadPoolDelivery

/-!
# No wake-up of the thread pool is lost

`not_empty` is a condition variable in the sense of `Covered`, with the queued connections
as its tasks. On `not_full` only the acceptor waits, and only while the queue is full.
-/

namespace LinuxSystemPrograms.PthreadPoolWakeup

open LinuxSystemPrograms.ConditionVariable
open LinuxSystemPrograms.PthreadPool
open LinuxSystemPrograms.PthreadPoolDelivery
open LinuxSystemPrograms.RingBuffer
open LinuxSystemPrograms.Sockets
open LinuxSystemPrograms.Transition

set_option autoImplicit false

variable {threads : Nat}

/-- A worker with respect to `not_empty`. -/
def phaseOf : WorkerState → Phase
  | .waiting => .waiting
  | .woken => .woken
  | .idle => .elsewhere
  | .serving _ _ => .elsewhere

def phases (pool : Pool threads) (index : Fin threads) : Phase := phaseOf (pool.worker index)

theorem phase_of_waiting {state : WorkerState} : phaseOf state = .waiting ↔ state = .waiting := by
  cases state <;> simp [phaseOf]

theorem phases_set_worker (pool : Pool threads) (index : Fin threads) (state : WorkerState) :
    phases (pool.setWorker index state) =
      Function.update (phases pool) index (phaseOf state) := by
  funext other
  by_cases same : other = index
  · subst same
    simp [phases, Pool.setWorker]
  · simp [phases, Pool.setWorker, same]

structure Roused (pool : Pool threads) : Prop where
  workers : Covered (phases pool) pool.queue.count.toNat
  acceptor : ∀ clientFd, pool.acceptor = .waiting clientFd → pool.queue.count = maxTask

theorem boot_roused (serverFd : Fd) (cells : Fin maxTask → Fd) :
    Roused (Pool.boot threads serverFd cells) where
  workers := covered_without_tasks _
  acceptor clientFd waiting := by cases waiting

/-- The section of `welcome_client`: one signal for one connection. -/
theorem enqueue_roused {pool : Pool threads} (sound : Sound pool) (roused : Roused pool)
    (clientFd : Fd) {signalled : Option (Fin threads)}
    (honest : Honest pool (.enqueue signalled)) : Roused (pool.enqueue clientFd signalled) := by
  unfold Pool.enqueue
  split_ifs with full
  · exact ⟨roused.workers, fun _ _ => full⟩
  · have nonneg := sound.queue.nonneg
    have pushed : (pool.queue.push clientFd).count.toNat = pool.queue.count.toNat + 1 := by
      simp only [Ring.push]
      omega
    cases signalled with
    | none =>
        refine ⟨?_, fun _ waiting => by cases waiting⟩
        have nobody : ∀ index, phases pool index ≠ .waiting := by
          intro index blocked
          have isWaiting := honest index
          rw [phase_of_waiting.mp blocked] at isWaiting
          cases isWaiting
        have covered : Covered (phases pool) (pool.queue.count.toNat + 1) :=
          covered_lost_signal nobody
        rw [← pushed] at covered
        exact covered
    | some index =>
        refine ⟨?_, fun _ waiting => by cases waiting⟩
        have blocked : pool.worker index = .waiting := by
          have isWaiting : (pool.worker index).isWaiting = true := honest
          cases state : pool.worker index with
          | waiting => rfl
          | idle => simp [state, WorkerState.isWaiting] at isWaiting
          | woken => simp [state, WorkerState.isWaiting] at isWaiting
          | serving fd session => simp [state, WorkerState.isWaiting] at isWaiting
        have covered := covered_signal roused.workers (phase_of_waiting.mpr blocked)
        have woken : phases (pool.setWorker index (pool.worker index).wake) =
            Function.update (phases pool) index .woken := by
          rw [phases_set_worker, blocked]
          rfl
        rw [← woken, ← pushed] at covered
        exact covered

/-- The section of `worker`: whoever takes a connection, no more woken workers are spent than
connections. -/
theorem dequeue_roused {pool : Pool threads} (sound : Sound pool) (roused : Roused pool)
    (index : Fin threads) (message : List.Vector Byte messageSize) :
    Roused (pool.dequeue index message) := by
  unfold Pool.dequeue
  split_ifs with empty
  · refine ⟨?_, fun clientFd waiting => ?_⟩
    · have none : pool.queue.count.toNat = 0 := by rw [empty, Int.toNat_zero]
      have covered := covered_without_tasks (phases (pool.setWorker index .waiting))
      rw [← none] at covered
      exact covered
    · have full := roused.acceptor clientFd waiting
      rw [empty] at full
      exact absurd full (by decide)
  · have nonneg := sound.queue.nonneg
    have popped : pool.queue.count.toNat = pool.queue.pop.2.count.toNat + 1 := by
      simp only [Ring.pop]
      omega
    refine ⟨?_, fun clientFd waiting => ?_⟩
    · have before := roused.workers
      rw [popped] at before
      have covered := covered_take before index
      rw [show Phase.elsewhere = phaseOf (.serving pool.queue.pop.1 (Session.start message))
        from rfl, ← phases_set_worker] at covered
      exact covered
    · cases state : pool.acceptor with
      | accepting => simp [Pool.signalNotFull, Pool.setWorker, state, AcceptorState.wake] at waiting
      | holding fd => simp [Pool.signalNotFull, Pool.setWorker, state, AcceptorState.wake] at waiting
      | waiting fd => simp [Pool.signalNotFull, Pool.setWorker, state, AcceptorState.wake] at waiting
      | woken fd => simp [Pool.signalNotFull, Pool.setWorker, state, AcceptorState.wake] at waiting

/-- A worker that serves a connection is elsewhere, also when it has finished. -/
theorem handle_roused {pool : Pool threads} (roused : Roused pool) {index : Fin threads}
    {clientFd : Fd} {session : Session} (serves : pool.worker index = .serving clientFd session)
    (ready : RecvResult) (room : SendResult) :
    Roused (pool.handle index clientFd session ready room) := by
  refine ⟨?_, roused.acceptor⟩
  have same : phases (pool.handle index clientFd session ready room) = phases pool := by
    have before : phases pool index = .elsewhere := by rw [phases, serves]; rfl
    unfold Pool.handle
    generalize session.step ready room = stepped
    obtain ⟨next, events⟩ := stepped
    rw [← Function.update_eq_self index (phases pool), before]
    cases next with
    | none => exact phases_set_worker pool index .idle
    | some session => exact phases_set_worker pool index (.serving clientFd session)
  rw [same]
  exact roused.workers

theorem step_roused {pool after : Pool threads} (sound : Sound pool) (roused : Roused pool)
    (taken : Taken pool after) : Roused after := by
  cases taken with
  | accepted clientFd free valid unused =>
      exact ⟨roused.workers, fun _ waiting => by cases waiting⟩
  | refused => exact roused
  | enqueued clientFd signalled held honest => exact enqueue_roused sound roused clientFd honest
  | dequeued index message ready => exact dequeue_roused sound roused index message
  | handled index clientFd session ready room serves => exact handle_roused roused serves ready room
  | workerWoken index blocked =>
      refine ⟨?_, roused.acceptor⟩
      rw [phases_set_worker]
      exact covered_wake roused.workers (phase_of_waiting.mpr blocked)
  | acceptorWoken clientFd blocked => exact ⟨roused.workers, fun _ waiting => by cases waiting⟩

theorem reachable_roused {pool : Pool threads} (reached : Reachable (system threads) pool) :
    Roused pool := by
  apply reachable_invariant _ _ reached
  · rintro pool ⟨serverFd, cells, rfl⟩
    exact boot_roused serverFd cells
  · intro pool label after prior roused step
    exact step_roused (reachable_sound prior) roused (taken_of_step step)

/-- While some worker is blocked, the workers woken for `not_empty` are as many as the queued
connections; the acceptor is blocked only by a full queue. So the threads are never all
blocked, and the workers are all blocked only with an empty queue. -/
theorem no_wakeup_lost (present : 0 < threads) {pool : Pool threads}
    (reached : Reachable (system threads) pool) :
    ((∃ index, pool.worker index = .waiting) →
        pool.queue.count ≤ (wokenThreads fun index => phaseOf (pool.worker index)).card) ∧
      (∀ clientFd, pool.acceptor = .waiting clientFd → pool.queue.count = maxTask) ∧
      ((∀ index, pool.worker index = .waiting) → pool.queue.count = 0) ∧
      ¬ ((∀ index, pool.worker index = .waiting) ∧
        ∃ clientFd, pool.acceptor = .waiting clientFd) := by
  have roused := reachable_roused reached
  have nonneg := (reachable_sound reached).queue.nonneg
  have idle : (∀ index, pool.worker index = .waiting) → pool.queue.count = 0 := by
    intro blocked
    have : Nonempty (Fin threads) := ⟨⟨0, present⟩⟩
    have none := no_task_of_all_waiting roused.workers fun index =>
      phase_of_waiting.mpr (blocked index)
    omega
  refine ⟨?_, roused.acceptor, idle, ?_⟩
  · rintro ⟨index, blocked⟩
    have covered := roused.workers ⟨index, phase_of_waiting.mpr blocked⟩
    have same : phases pool = fun index => phaseOf (pool.worker index) := rfl
    rw [same] at covered
    omega
  · rintro ⟨blocked, clientFd, waiting⟩
    have full := roused.acceptor clientFd waiting
    rw [idle blocked] at full
    exact absurd full (by decide)

/-- Both workers are blocked when a connection comes; one is signalled and has not run yet. -/
def oneSignal (first second : Fin threads) : List (Label threads) :=
  let message := List.Vector.replicate messageSize 0
  [.dequeue first message, .dequeue second message, .accept (.ok 5), .enqueue (some first)]

theorem no_wakeup_lost_one_signal : ∃ pool : Pool 2, Reachable (system 2) pool ∧
    pool.queue.count = 1 ∧ (∃ index, pool.worker index = .waiting) ∧
      pool.queue.count ≤ (wokenThreads fun index => phaseOf (pool.worker index)).card := by
  obtain ⟨pool, reached, count, isWaiting⟩ := exists_reachable_of_run next_sound
    ⟨3, fun _ => 0, rfl⟩ (oneSignal 0 1)
    (fun pool : Pool 2 => pool.queue.count = 1 ∧ phaseOf (pool.worker 1) = .waiting)
    (by decide +kernel)
  have blocked : ∃ index, pool.worker index = .waiting := ⟨1, phase_of_waiting.mp isWaiting⟩
  exact ⟨pool, reached, count, blocked, (no_wakeup_lost (by decide) reached).1 blocked⟩

end LinuxSystemPrograms.PthreadPoolWakeup
