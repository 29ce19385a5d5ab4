import LinuxSystemPrograms.ConditionVariable
import LinuxSystemPrograms.RingBuffer
import LinuxSystemPrograms.Transition

/-!
# `thread_pool.c`

A step is a section between a lock and the unlock or `pthread_cond_wait` that ends it, or a
worker that wakes by itself. It does not matter which thread calls `push`: such a thread
never waits.
-/

namespace LinuxSystemPrograms.ThreadPool

open LinuxSystemPrograms.ConditionVariable
open LinuxSystemPrograms.RingBuffer
open LinuxSystemPrograms.Transition

set_option autoImplicit false

def maxTask : Nat := 100

variable {Worker Task : Type}

/-- `count` is the member `size`. -/
abbrev Queue (Task : Type) := Ring Task maxTask

def push (queue : Queue Task) (task : Task) : Int × Queue Task :=
  if queue.count = maxTask then (-1, queue) else (0, queue.push task)

/-- `none` stands for `pthread_cond_wait`. -/
def pop (queue : Queue Task) : Option (Task × Queue Task) :=
  if queue.count = 0 then none else some queue.pop

inductive Event (Worker Task : Type) where
  | pushed (task : Task) (result : Int)
  | popped (worker : Worker) (task : Task)
  deriving DecidableEq, Repr

def accepted (history : List (Event Worker Task)) : List Task :=
  history.filterMap fun
    | .pushed task result => if result = 0 then some task else none
    | .popped _ _ => none

def returned (history : List (Event Worker Task)) : List Task :=
  history.filterMap fun
    | .pushed _ _ => none
    | .popped _ task => some task

/-- `phase` is where the workers are with respect to `cond`. -/
structure Pool (Worker Task : Type) where
  queue : Queue Task
  phase : Worker → Phase
  history : List (Event Worker Task)

/-- `signalled` is the worker that `pthread_cond_signal` wakes. -/
inductive Label (Worker Task : Type) where
  | push (task : Task) (signalled : Option Worker)
  | pop (worker : Worker)
  | wake (worker : Worker)

namespace Pool

variable [DecidableEq Worker]

def signal (pool : Pool Worker Task) : Option Worker → Pool Worker Task
  | none => pool
  | some worker => { pool with phase := Function.update pool.phase worker .woken }

def advance (pool : Pool Worker Task) : Label Worker Task → Option (Pool Worker Task)
  | .push task signalled =>
      let (result, queue) := push pool.queue task
      let pool := { pool with queue := queue, history := pool.history ++ [.pushed task result] }
      some (if result = 0 then pool.signal signalled else pool)
  | .pop worker =>
      if pool.phase worker = .waiting then none
      else
        match pop pool.queue with
        | none => some { pool with phase := Function.update pool.phase worker .waiting }
        | some (task, queue) =>
            some
              { queue := queue
                phase := Function.update pool.phase worker .elsewhere
                history := pool.history ++ [.popped worker task] }
  | .wake worker =>
      if pool.phase worker = .waiting then some (pool.signal (some worker)) else none

end Pool

/-- A signal wakes a worker that waits, if there is one. -/
def Honest (pool : Pool Worker Task) : Label Worker Task → Prop
  | .push _ none => ∀ worker, pool.phase worker ≠ .waiting
  | .push _ (some worker) => pool.phase worker = .waiting
  | .pop _ => True
  | .wake _ => True

/-- `queue_init`; the cells are not initialized. -/
def Initialized (pool : Pool Worker Task) : Prop :=
  pool.queue.front.val = 0 ∧ pool.queue.rear.val = 0 ∧ pool.queue.count = 0 ∧
    (∀ worker, pool.phase worker = .elsewhere) ∧ pool.history = []

def system (Worker Task : Type) [DecidableEq Worker] :
    System (Pool Worker Task) (Label Worker Task) where
  init := Initialized
  step pool label after := Honest pool label ∧ pool.advance label = some after

theorem accepted_append (history events : List (Event Worker Task)) :
    accepted (history ++ events) = accepted history ++ accepted events :=
  List.filterMap_append

theorem returned_append (history events : List (Event Worker Task)) :
    returned (history ++ events) = returned history ++ returned events :=
  List.filterMap_append

/-! ## The queue as a bounded list -/

theorem contents_length {queue : Queue Task} (formed : queue.Formed) :
    (queue.contents.length : Int) = queue.count := by
  rw [Ring.contents, List.length_map, List.length_range, Int.toNat_of_nonneg formed.nonneg]

theorem push_refuses {queue : Queue Task} (formed : queue.Formed) (task : Task) :
    (push queue task).1 = -1 ↔ queue.contents.length = maxTask := by
  have length := contents_length formed
  unfold push
  split_ifs with full
  · simp only [true_iff]
    omega
  · constructor
    · intro refused
      cases refused
    · intro whole
      rw [whole] at length
      exact absurd length.symm full

theorem push_refused_same {queue : Queue Task} {task : Task} (refused : (push queue task).1 = -1) :
    (push queue task).2 = queue := by
  unfold push at refused ⊢
  split_ifs with full
  · rfl
  · rw [if_neg full] at refused
    cases refused

theorem push_cases {queue : Queue Task} (formed : queue.Formed) (task : Task) :
    push queue task = (-1, queue) ∨
      ∃ after, push queue task = (0, after) ∧ after.Formed ∧
        after.contents = queue.contents ++ [task] ∧
          after.count.toNat = queue.count.toNat + 1 := by
  have nonneg := formed.nonneg
  have bounded := formed.bounded
  unfold push
  split_ifs with full
  · exact Or.inl rfl
  · have room : queue.count < (maxTask : Int) := by omega
    refine Or.inr ⟨_, rfl, Ring.push_formed formed task room, Ring.push_contents formed task room, ?_⟩
    simp only [Ring.push]
    omega

theorem pop_cases {queue : Queue Task} (formed : queue.Formed) :
    (pop queue = none ∧ queue.count = 0) ∨
      ∃ task after, pop queue = some (task, after) ∧ after.Formed ∧
        queue.contents = task :: after.contents ∧
          queue.count.toNat = after.count.toNat + 1 := by
  have nonneg := formed.nonneg
  unfold pop
  split_ifs with empty
  · exact Or.inl ⟨rfl, empty⟩
  · have some : 0 < queue.count := by omega
    refine Or.inr ⟨_, _, rfl, Ring.pop_formed formed some, Ring.pop_contents some, ?_⟩
    show queue.count.toNat = (queue.count - 1).toNat + 1
    omega

/-! ## Whole runs -/

variable [Fintype Worker]

structure Sound (pool : Pool Worker Task) : Prop where
  formed : pool.queue.Formed
  delivered : accepted pool.history = returned pool.history ++ pool.queue.contents
  covered : Covered pool.phase pool.queue.count.toNat

theorem initialized_sound {pool : Pool Worker Task} (initialized : Initialized pool) :
    Sound pool := by
  obtain ⟨front, rear, empty, _, nothing⟩ := initialized
  constructor
  · exact Ring.formed_of_empty pool.queue empty (Fin.ext (rear.trans front.symm))
  · rw [nothing, Ring.contents_of_empty pool.queue empty]
    rfl
  · rw [empty, Int.toNat_zero]
    exact covered_without_tasks pool.phase

variable [DecidableEq Worker]

/-- The signal is for the task that has just been queued. -/
theorem signal_covered {pool : Pool Worker Task} {tasks : Nat} {task : Task}
    {signalled : Option Worker} (covered : Covered pool.phase tasks)
    (honest : Honest pool (.push task signalled)) :
    Covered (pool.signal signalled).phase (tasks + 1) := by
  cases signalled with
  | none => exact covered_lost_signal honest
  | some worker => exact covered_signal covered honest

theorem push_sound {pool after : Pool Worker Task} {task : Task} {signalled : Option Worker}
    (sound : Sound pool) (honest : Honest pool (.push task signalled))
    (advanced : pool.advance (.push task signalled) = some after) : Sound after := by
  simp only [Pool.advance] at advanced
  rcases push_cases sound.formed task with refused | ⟨queue, pushed, formed, contents, count⟩
  · rw [refused] at advanced
    cases advanced
    refine ⟨sound.formed, ?_, sound.covered⟩
    have delivered := sound.delivered
    simpa [accepted, returned] using delivered
  · rw [pushed] at advanced
    simp only [if_true, Option.some.injEq] at advanced
    have delivered : accepted (pool.history ++ [.pushed task 0]) =
        returned (pool.history ++ [.pushed task 0]) ++ queue.contents := by
      rw [accepted_append, returned_append, contents, sound.delivered]
      simp [accepted, returned]
    have covered := signal_covered sound.covered honest
    rw [← count] at covered
    subst advanced
    cases signalled with
    | none => exact ⟨formed, delivered, covered⟩
    | some worker => exact ⟨formed, delivered, covered⟩

theorem pop_sound {pool after : Pool Worker Task} {worker : Worker} (sound : Sound pool)
    (advanced : pool.advance (.pop worker) = some after) : Sound after := by
  simp only [Pool.advance] at advanced
  split_ifs at advanced with blocked
  rcases pop_cases sound.formed with ⟨waits, empty⟩ | ⟨task, queue, popped, formed, contents, count⟩
  · rw [waits] at advanced
    cases advanced
    refine ⟨sound.formed, sound.delivered, ?_⟩
    rw [empty, Int.toNat_zero]
    exact covered_without_tasks _
  · rw [popped] at advanced
    cases advanced
    refine ⟨formed, ?_, ?_⟩
    · rw [accepted_append, returned_append, sound.delivered, contents]
      simp [accepted, returned]
    · have covered := sound.covered
      rw [count] at covered
      exact covered_take covered worker

theorem step_sound {pool after : Pool Worker Task} {label : Label Worker Task}
    (sound : Sound pool) (taken : (system Worker Task).step pool label after) : Sound after := by
  obtain ⟨honest, advanced⟩ := taken
  cases label with
  | push task signalled => exact push_sound sound honest advanced
  | pop worker => exact pop_sound sound advanced
  | wake worker =>
      simp only [Pool.advance] at advanced
      split_ifs at advanced with blocked
      cases advanced
      exact ⟨sound.formed, sound.delivered, covered_wake sound.covered blocked⟩

theorem reachable_sound {pool : Pool Worker Task} (reached : Reachable (system Worker Task) pool) :
    Sound pool :=
  reachable_invariant (fun _ => initialized_sound) (fun _ _ _ _ => step_sound) reached

/-- The queue is a bounded FIFO: `push` refuses a task exactly when `MAX_TASK` are queued,
every accepted task is returned once, in the order of acceptance, and no task waits while all
workers are blocked. -/
theorem task_queue_bounded_fifo [Nonempty Worker] {pool : Pool Worker Task}
    (reached : Reachable (system Worker Task) pool) :
    (0 ≤ pool.queue.count ∧ pool.queue.count ≤ maxTask ∧
        ((pool.queue.rear : Nat) : Int) = (pool.queue.front + pool.queue.count) % maxTask) ∧
      (∀ task, ((push pool.queue task).1 = -1 ↔ pool.queue.contents.length = maxTask) ∧
        ((push pool.queue task).1 = -1 → (push pool.queue task).2 = pool.queue)) ∧
      accepted pool.history = returned pool.history ++ pool.queue.contents ∧
      ¬ (0 < pool.queue.count ∧ ∀ worker, pool.phase worker = .waiting) := by
  have sound := reachable_sound reached
  refine ⟨⟨sound.formed.nonneg, sound.formed.bounded, sound.formed.rear_value⟩, ?_,
    sound.delivered, ?_⟩
  · intro task
    exact ⟨push_refuses sound.formed task, push_refused_same⟩
  · rintro ⟨stranded, blocked⟩
    have none := no_task_of_all_waiting sound.covered blocked
    omega

instance (pool : Pool Worker Task) : (label : Label Worker Task) → Decidable (Honest pool label)
  | .push _ none => inferInstanceAs (Decidable (∀ worker, pool.phase worker ≠ .waiting))
  | .push _ (some worker) => inferInstanceAs (Decidable (pool.phase worker = .waiting))
  | .pop _ => inferInstanceAs (Decidable True)
  | .wake _ => inferInstanceAs (Decidable True)

def next (pool : Pool Worker Task) (label : Label Worker Task) : Option (Pool Worker Task) :=
  if Honest pool label then pool.advance label else none

theorem next_sound (pool : Pool Worker Task) (label : Label Worker Task)
    (after : Pool Worker Task) (result : next pool label = some after) :
    (system Worker Task).step pool label after := by
  unfold next at result
  split_ifs at result with honest
  exact ⟨honest, result⟩

/-- A worker that has woken by itself finds no task left. -/
theorem task_queue_bounded_fifo_two_workers :
    ∃ pool : Pool (Fin 2) Nat, Reachable (system (Fin 2) Nat) pool ∧
      returned pool.history = [7] ∧ pool.phase 1 = .waiting ∧
      accepted pool.history = returned pool.history ++ pool.queue.contents := by
  let boot : Pool (Fin 2) Nat :=
    { queue := ⟨fun _ => 0, ⟨0, by decide⟩, ⟨0, by decide⟩, 0⟩
      phase := fun _ => .elsewhere
      history := [] }
  have initial : (system (Fin 2) Nat).init boot := ⟨rfl, rfl, rfl, fun _ => rfl, rfl⟩
  obtain ⟨pool, reached, one, blocked⟩ := exists_reachable_of_run next_sound initial
    [.pop 0, .pop 1, .push 7 (some 0), .wake 1, .pop 0, .pop 1]
    (fun pool : Pool (Fin 2) Nat => returned pool.history = [7] ∧ pool.phase 1 = .waiting)
    (by decide +kernel)
  exact ⟨pool, reached, one, blocked, (task_queue_bounded_fifo reached).2.2.1⟩

end LinuxSystemPrograms.ThreadPool
