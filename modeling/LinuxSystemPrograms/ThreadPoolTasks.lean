import LinuxSystemPrograms.FiniteSums
import LinuxSystemPrograms.ThreadPool
import Mathlib.Algebra.BigOperators.Fin
import Mathlib.Algebra.Order.BigOperators.Group.Finset

/-!
# `main` of `thread_pool.c`

The pool at work: `main` starts the workers, submits one `print_task` for every cell of
`args` and joins. The queue is the one of `ThreadPool`; what is added are the two sides of
it. A step of `main` or of a worker is one access to `args`, one call of `push` or `pop`, or
one line of output; `sleep` and `usleep` are steps of the others. Every task has the
function `print_task`, so that a task is the index of its argument in `args`.
-/

namespace LinuxSystemPrograms.ThreadPoolTasks

open LinuxSystemPrograms.ConditionVariable
open LinuxSystemPrograms.FiniteSums
open LinuxSystemPrograms.RingBuffer
open LinuxSystemPrograms.ThreadPool
open LinuxSystemPrograms.Transition

set_option autoImplicit false

/-- Where `main` is; `create` is the loop of `threadpool_init`. -/
inductive MainPlace where
  | create (i : Nat)
  | fill (i : Nat)
  | push (i : Nat)
  | join (i : Nat)
  | returned
  deriving DecidableEq, Repr

/-- Where a thread is in `worker` and `print_task`. -/
inductive WorkerPlace where
  | absent
  | pop
  | read (arg : Nat)
  | print (num : Int)
  deriving DecidableEq, Repr

inductive Line where
  | task (num : Int)
  | refused
  deriving DecidableEq, Repr

structure State (workers : Nat) where
  pool : Pool (Fin workers) Nat
  args : Nat → Int
  main : MainPlace
  worker : Fin workers → WorkerPlace
  output : List Line

/-- `signalled` is the worker that `pthread_cond_signal` wakes, if `main` is at `push`. -/
inductive Label (workers : Nat) where
  | main (signalled : Option (Fin workers))
  | worker (id : Fin workers)
  | wake (id : Fin workers)

variable {workers : Nat}

namespace State

def setWorker (state : State workers) (id : Fin workers) (place : WorkerPlace) : State workers :=
  { state with worker := Function.update state.worker id place }

/-- A worker never returns, and `pthread_join` waits for it. -/
def mainStep (state : State workers) (signalled : Option (Fin workers)) :
    Option (State workers) :=
  match state.main with
  | .create i =>
      if more : i < workers then
        some { state.setWorker ⟨i, more⟩ .pop with main := .create (i + 1) }
      else some { state with main := .fill 0 }
  | .fill i =>
      if i < maxTask then
        some { state with args := Function.update state.args i (i : Int), main := .push i }
      else some { state with main := .join 0 }
  | .push i => do
      let pool ← state.pool.advance (.push i signalled)
      let line := if (push state.pool.queue i).1 = -1 then [Line.refused] else []
      return { state with pool := pool, main := .fill (i + 1), output := state.output ++ line }
  | .join i => if i < workers then none else some { state with main := .returned }
  | .returned => none

def workerStep (state : State workers) (id : Fin workers) : Option (State workers) :=
  match state.worker id with
  | .absent => none
  | .pop => do
      let pool ← state.pool.advance (.pop id)
      match pop state.pool.queue with
      | none => return { state with pool := pool }
      | some (arg, _) => return { state.setWorker id (.read arg) with pool := pool }
  | .read arg => some (state.setWorker id (.print (state.args arg)))
  | .print num => some { state.setWorker id .pop with output := state.output ++ [.task num] }

def advance (state : State workers) : Label workers → Option (State workers)
  | .main signalled => state.mainStep signalled
  | .worker id => state.workerStep id
  | .wake id => (state.pool.advance (.wake id)).map fun pool => { state with pool := pool }

end State

/-- A signal wakes a worker that waits, if there is one. -/
def Honest (state : State workers) : Label workers → Prop
  | .main signalled => ∀ i, state.main = .push i → ThreadPool.Honest state.pool (.push i signalled)
  | .worker _ => True
  | .wake _ => True

/-- `args` is not initialized. -/
def Initial (state : State workers) : Prop :=
  Initialized state.pool ∧ state.main = .create 0 ∧ (∀ id, state.worker id = .absent) ∧
    state.output = []

def system (workers : Nat) : System (State workers) (Label workers) where
  init := Initial
  step state label after := Honest state label ∧ state.advance label = some after

def Spurious (_ : State workers) : Label workers → Prop
  | .wake _ => True
  | _ => False

def numbers (output : List Line) : List Int :=
  output.filterMap fun
    | .task num => some num
    | .refused => none

theorem numbers_append (output lines : List Line) :
    numbers (output ++ lines) = numbers output ++ numbers lines :=
  List.filterMap_append

/-! ## What every step keeps -/

namespace MainPlace

def pushed : MainPlace → Nat
  | .create _ => 0
  | .fill i => i
  | .push i => i
  | .join _ => maxTask
  | .returned => maxTask

def filled : MainPlace → Nat
  | .create _ => 0
  | .fill i => i
  | .push i => i + 1
  | .join _ => maxTask
  | .returned => maxTask

def created (workers : Nat) : MainPlace → Nat
  | .create i => i
  | _ => workers

theorem pushed_le_filled (place : MainPlace) : place.pushed ≤ place.filled := by
  cases place <;> simp [pushed, filled]

end MainPlace

/-- The task that a worker has taken and not printed yet. -/
def WorkerPlace.held : WorkerPlace → List Int
  | .read arg => [(arg : Int)]
  | .print num => [num]
  | _ => []

/-- How often a number is printed or about to be. -/
def shows (output : List Line) (worker : Fin workers → WorkerPlace) (num : Int) : Nat :=
  (numbers output).count num + ∑ id, (worker id).held.count num

structure Sound (state : State workers) : Prop where
  pool : ThreadPool.Sound state.pool
  bound : state.main.pushed ≤ maxTask
  submitted : accepted state.pool.history = List.range state.main.pushed
  room : ∀ i, state.main = .push i → i < maxTask
  unrefused : Line.refused ∉ state.output
  filled : ∀ j < state.main.filled, state.args j = j
  started : ∀ id : Fin workers, id < state.main.created workers ↔ state.worker id ≠ .absent
  shown : ∀ num, shows state.output state.worker num =
    ((returned state.pool.history).map Nat.cast).count num
  ahead : ∀ num ∈ numbers state.output, ∃ id, ∀ task ∈ (state.worker id).held, num < task

theorem signal_history (pool : Pool (Fin workers) Nat) (signalled : Option (Fin workers)) :
    (pool.signal signalled).history = pool.history := by
  cases signalled <;> rfl

theorem push_history {pool after : Pool (Fin workers) Nat} {task : Nat}
    {signalled : Option (Fin workers)}
    (advanced : pool.advance (.push task signalled) = some after) :
    after.history = pool.history ++ [.pushed task (push pool.queue task).1] := by
  simp only [Pool.advance, Option.some.injEq] at advanced
  subst advanced
  split_ifs
  · exact signal_history _ signalled
  · rfl

theorem pop_history {pool after : Pool (Fin workers) Nat} {id : Fin workers}
    (advanced : pool.advance (.pop id) = some after) :
    (pop pool.queue = none ∧ after.history = pool.history) ∨
      ∃ task queue, pop pool.queue = some (task, queue) ∧
        after.history = pool.history ++ [.popped id task] := by
  simp only [Pool.advance] at advanced
  split_ifs at advanced
  cases result : pop pool.queue with
  | none =>
      rw [result] at advanced
      cases advanced
      exact Or.inl ⟨rfl, rfl⟩
  | some popped =>
      obtain ⟨task, queue⟩ := popped
      rw [result] at advanced
      cases advanced
      exact Or.inr ⟨task, queue, rfl, rfl⟩

/-- A sum of which one term changes. -/
theorem shows_exchange (worker : Fin workers → WorkerPlace) (id : Fin workers)
    (place : WorkerPlace) (output : List Line) (num : Int) :
    shows output (Function.update worker id place) num + (worker id).held.count num =
      shows output worker num + place.held.count num := by
  have exchanged := sum_exchange (fun other => (worker other).held.count num)
    (fun other => (Function.update worker id place other).held.count num) id
    (fun other different => by simp only [Function.update_of_ne different])
  simp only [Function.update_self] at exchanged
  unfold shows
  omega

theorem contents_le_pushed {state : State workers} (sound : Sound state) :
    state.pool.queue.contents.length ≤ state.main.pushed := by
  have delivered := congrArg List.length sound.pool.delivered
  rw [sound.submitted, List.length_range, List.length_append] at delivered
  omega

/-- `main` submits as many tasks as the queue can hold. -/
theorem push_granted {state : State workers} (sound : Sound state) {i : Nat}
    (atPush : state.main = .push i) : (push state.pool.queue i).1 = 0 := by
  have room := sound.room i atPush
  have held := contents_le_pushed sound
  rw [atPush] at held
  rcases push_cases sound.pool.formed i with refused | ⟨_, granted, _⟩
  · have full := (push_refuses sound.pool.formed i).mp (by rw [refused])
    simp only [MainPlace.pushed] at held
    omega
  · rw [granted]

theorem front_of_range {front rest : List Nat} {count : Nat}
    (whole : List.range count = front ++ rest) : front = List.range front.length := by
  have length := congrArg List.length whole
  rw [List.length_range, List.length_append] at length
  have taken := congrArg (List.take front.length) whole
  rw [List.take_left' rfl, List.take_range, Nat.min_eq_left (by omega)] at taken
  exact taken.symm

/-- What has been taken are the first numbers, in order. -/
theorem returned_range {state : State workers} (sound : Sound state) :
    returned state.pool.history = List.range (returned state.pool.history).length := by
  apply front_of_range
  rw [← sound.submitted, sound.pool.delivered]

/-- The oldest task in the queue is the next number. -/
theorem popped_task {state : State workers} (sound : Sound state) {task : Nat}
    {queue : Queue Nat} (popped : pop state.pool.queue = some (task, queue)) :
    task = (returned state.pool.history).length := by
  rcases pop_cases sound.pool.formed with ⟨waits, _⟩ | ⟨first, rest, result, _, contents, _⟩
  · rw [waits] at popped
    cases popped
  · rw [result] at popped
    cases popped
    have delivered := sound.pool.delivered
    rw [sound.submitted, contents] at delivered
    have whole : List.range state.main.pushed =
        (returned state.pool.history ++ [task]) ++ queue.contents := by simpa using delivered
    have front := front_of_range whole
    rw [List.length_append, List.length_singleton, List.range_succ] at front
    have last := (List.append_inj' front rfl).2
    exact List.singleton_inj.mp last

theorem shown_taken {state : State workers} (sound : Sound state) {num : Int}
    (visible : 0 < shows state.output state.worker num) :
    ∃ task < (returned state.pool.history).length, num = (task : Int) := by
  have among : num ∈ (returned state.pool.history).map Nat.cast := by
    rw [← List.count_pos_iff, ← sound.shown num]
    exact visible
  rw [returned_range sound] at among
  obtain ⟨task, member, rfl⟩ := List.mem_map.mp among
  exact ⟨task, List.mem_range.mp member, rfl⟩

theorem mem_numbers {state : State workers} (sound : Sound state) {num : Int}
    (printed : num ∈ numbers state.output) :
    ∃ task < (returned state.pool.history).length, num = (task : Int) := by
  have once : 0 < (numbers state.output).count num := List.count_pos_iff.mpr printed
  exact shown_taken sound (Nat.lt_of_lt_of_le once (Nat.le_add_right _ _))

theorem mem_held {state : State workers} (sound : Sound state) {id : Fin workers} {num : Int}
    (held : num ∈ (state.worker id).held) :
    ∃ task < (returned state.pool.history).length, num = (task : Int) := by
  have once : 0 < (state.worker id).held.count num := List.count_pos_iff.mpr held
  have part : (state.worker id).held.count num ≤ ∑ query, (state.worker query).held.count num :=
    Finset.single_le_sum (f := fun query => (state.worker query).held.count num)
      (fun _ _ => Nat.zero_le _) (Finset.mem_univ id)
  exact shown_taken sound (Nat.lt_of_lt_of_le once (part.trans (Nat.le_add_left _ _)))

/-- A worker finds in `args` what `main` has written there before the `push`. -/
theorem args_of_held {state : State workers} (sound : Sound state) {id : Fin workers} {arg : Nat}
    (place : state.worker id = .read arg) : state.args arg = arg := by
  have held : (arg : Int) ∈ (state.worker id).held := by simp [place, WorkerPlace.held]
  obtain ⟨task, taken, same⟩ := mem_held sound held
  have delivered := congrArg List.length sound.pool.delivered
  rw [sound.submitted, List.length_range, List.length_append] at delivered
  have order := state.main.pushed_le_filled
  exact sound.filled arg (by omega)

theorem initial_sound {state : State workers} (initial : Initial state) : Sound state := by
  obtain ⟨pool, main, absent, silent⟩ := initial
  have nothing := pool.2.2.2.2
  constructor
  case pool => exact initialized_sound pool
  case bound =>
    rw [main]
    exact Nat.zero_le _
  case submitted =>
    rw [nothing, main]
    rfl
  case room =>
    intro i atPush
    rw [main] at atPush
    cases atPush
  case unrefused =>
    rw [silent]
    exact List.not_mem_nil
  case filled =>
    intro j less
    rw [main] at less
    exact absurd less (Nat.not_lt_zero j)
  case started =>
    intro id
    simp [main, absent id, MainPlace.created]
  case shown =>
    intro num
    simp [shows, silent, nothing, absent, numbers, returned, WorkerPlace.held]
  case ahead =>
    intro num printed
    rw [silent] at printed
    cases printed

/-- Where only the place of `main` changes. -/
theorem Sound.move_main {state : State workers} (sound : Sound state) (place : MainPlace)
    (pushed : place.pushed = state.main.pushed) (filled : place.filled = state.main.filled)
    (created : ∀ id : Fin workers, id < place.created workers ↔
      id < state.main.created workers)
    (room : ∀ i, place = .push i → i < maxTask) : Sound { state with main := place } := by
  refine { sound with bound := ?_, submitted := ?_, room := room, filled := ?_, started := ?_ }
  · rw [pushed]
    exact sound.bound
  · rw [pushed]
    exact sound.submitted
  · rw [filled]
    exact sound.filled
  · intro id
    rw [created]
    exact sound.started id

theorem main_sound {state after : State workers} {signalled : Option (Fin workers)}
    (sound : Sound state) (honest : Honest state (.main signalled))
    (taken : state.mainStep signalled = some after) : Sound after := by
  have bound := sound.bound
  unfold State.mainStep at taken
  split at taken
  case h_1 i place =>
    have started := sound.started
    simp only [place, MainPlace.created] at started
    split_ifs at taken with more
    · cases taken
      have absent : state.worker ⟨i, more⟩ = .absent := by
        by_contra present
        exact absurd ((started ⟨i, more⟩).mpr present) (Nat.lt_irrefl i)
      refine { sound with bound := Nat.zero_le _, submitted := ?_, room := ?_, filled := ?_,
                          started := ?_, shown := ?_, ahead := ?_ }
      · have submitted := sound.submitted
        rwa [place] at submitted
      · rintro _ ⟨⟩
      · intro j less
        exact absurd less (Nat.not_lt_zero j)
      · intro id
        simp only [State.setWorker, MainPlace.created]
        by_cases same : id = ⟨i, more⟩
        · simp [same]
        · have different : (id : Nat) ≠ i := fun value => same (Fin.ext value)
          rw [Function.update_of_ne same, ← started id]
          omega
      · intro num
        have exchanged := shows_exchange state.worker ⟨i, more⟩ .pop state.output num
        rw [absent] at exchanged
        exact exchanged.trans (sound.shown num)
      · intro num printed
        obtain ⟨id, later⟩ := sound.ahead num printed
        refine ⟨id, fun task held => later task ?_⟩
        by_cases same : id = ⟨i, more⟩
        · simp [State.setWorker, same, WorkerPlace.held] at held
        · simpa [State.setWorker, same] using held
    · cases taken
      have all : ∀ id : Fin workers, (id : Nat) < i := fun id => by omega
      apply sound.move_main (.fill 0)
      · rw [place]
        rfl
      · rw [place]
        rfl
      · intro id
        rw [place]
        exact iff_of_true id.isLt (all id)
      · rintro _ ⟨⟩
  case h_2 i place =>
    have filled := sound.filled
    simp only [place, MainPlace.filled] at filled
    split_ifs at taken with more
    · cases taken
      refine { sound with bound := ?_, submitted := ?_, room := ?_, filled := ?_, started := ?_ }
      · rwa [place] at bound
      · have submitted := sound.submitted
        rwa [place] at submitted
      · rintro _ ⟨⟩
        exact more
      · intro j less
        simp only [MainPlace.filled] at less
        show Function.update state.args i (i : Int) j = j
        by_cases same : j = i
        · rw [same, Function.update_self]
        · rw [Function.update_of_ne same]
          exact filled j (by omega)
      · have started := sound.started
        rwa [place] at started
    · cases taken
      have last : i = maxTask := Nat.le_antisymm (by rwa [place] at bound) (Nat.le_of_not_lt more)
      apply sound.move_main (.join 0)
      · rw [place, last]
        rfl
      · rw [place, last]
        rfl
      · intro id
        rw [place]
        rfl
      · rintro _ ⟨⟩
  case h_3 i place =>
    obtain ⟨pool, advanced, same⟩ := Option.bind_eq_some_iff.mp taken
    cases same
    have history := push_history advanced
    have granted := push_granted sound place
    rw [granted] at history
    have popped : returned pool.history = returned state.pool.history := by
      rw [history, returned_append]
      exact List.append_nil _
    have pooled : ThreadPool.Sound pool :=
      ThreadPool.push_sound sound.pool (honest i place) advanced
    have silent : state.output ++ (if (push state.pool.queue i).1 = -1 then [Line.refused] else []) =
        state.output := by
      rw [granted]
      exact List.append_nil _
    refine { pool := pooled, bound := ?_, submitted := ?_, room := ?_, unrefused := ?_, filled := ?_,
             started := ?_, shown := ?_, ahead := ?_ }
    · exact sound.room i place
    · have submitted := sound.submitted
      rw [place] at submitted
      show accepted pool.history = List.range (i + 1)
      rw [history, accepted_append, submitted, List.range_succ]
      rfl
    · rintro _ ⟨⟩
    · rw [silent]
      exact sound.unrefused
    · have filled := sound.filled
      rwa [place] at filled
    · have started := sound.started
      rwa [place] at started
    · rw [silent, popped]
      exact sound.shown
    · rw [silent]
      exact sound.ahead
  case h_4 i place =>
    split_ifs at taken with joining
    cases taken
    apply sound.move_main .returned
    · rw [place]
      rfl
    · rw [place]
      rfl
    · intro id
      rw [place]
      rfl
    · rintro _ ⟨⟩
  case h_5 place => cases taken

/-- Where a worker takes its next task, or only the place of it changes. -/
theorem Sound.move_worker {state : State workers} (sound : Sound state) (id : Fin workers)
    (place : WorkerPlace) (present : place ≠ .absent) (lines : List Line)
    {pool : Pool (Fin workers) Nat} (pooled : ThreadPool.Sound pool)
    (submitted : accepted pool.history = accepted state.pool.history)
    (started : state.worker id ≠ .absent) (unrefused : Line.refused ∉ lines)
    (shown : ∀ num, (numbers lines).count num + place.held.count num +
        ((returned state.pool.history).map Nat.cast).count num =
      (state.worker id).held.count num + ((returned pool.history).map Nat.cast).count num)
    (ahead : ∀ num ∈ numbers (state.output ++ lines), ∃ query,
      ∀ task ∈ (Function.update state.worker id place query).held, num < task) :
    Sound { state.setWorker id place with pool := pool, output := state.output ++ lines } := by
  refine { sound with pool := pooled, submitted := submitted.trans sound.submitted,
                      unrefused := ?_, started := ?_, shown := ?_, ahead := ahead }
  · rw [List.mem_append, not_or]
    exact ⟨sound.unrefused, unrefused⟩
  · intro query
    apply (sound.started query).trans
    show state.worker query ≠ .absent ↔ Function.update state.worker id place query ≠ .absent
    by_cases same : query = id
    · rw [same, Function.update_self]
      exact iff_of_true started present
    · rw [Function.update_of_ne same]
  · intro num
    have exchanged := shows_exchange state.worker id place state.output num
    have before := sound.shown num
    have now := shown num
    simp only [State.setWorker, shows, numbers_append, List.count_append] at exchanged before ⊢
    omega

/-- The workers that are behind a printed number stay behind it. -/
theorem Sound.ahead_kept {state : State workers} (sound : Sound state) (id : Fin workers)
    {place : WorkerPlace} {num : Int} (printed : num ∈ numbers state.output)
    (later : ∀ task ∈ place.held, task ∉ (state.worker id).held → num < task) :
    ∃ query, ∀ task ∈ (Function.update state.worker id place query).held, num < task := by
  obtain ⟨query, behind⟩ := sound.ahead num printed
  refine ⟨query, fun task held => ?_⟩
  by_cases same : query = id
  · rw [same, Function.update_self] at held
    by_cases known : task ∈ (state.worker id).held
    · rw [same] at behind
      exact behind task known
    · exact later task held known
  · rw [Function.update_of_ne same] at held
    exact behind task held

theorem worker_sound {state after : State workers} {id : Fin workers} (sound : Sound state)
    (taken : state.workerStep id = some after) : Sound after := by
  unfold State.workerStep at taken
  split at taken
  case h_1 place => cases taken
  case h_2 place =>
    obtain ⟨pool, advanced, same⟩ := Option.bind_eq_some_iff.mp taken
    have pooled := ThreadPool.pop_sound sound.pool advanced
    rcases pop_history advanced with ⟨waits, history⟩ | ⟨task, queue, popped, history⟩
    · rw [waits] at same
      cases same
      refine { sound with pool := pooled, submitted := ?_, shown := ?_ }
      · rw [history]
        exact sound.submitted
      · rw [history]
        exact sound.shown
    · rw [popped] at same
      cases same
      have number := popped_task sound popped
      have now : returned pool.history = returned state.pool.history ++ [task] := by
        rw [history, returned_append]
        rfl
      have moved := sound.move_worker id (.read task) (by simp) [] pooled
        (by rw [history, accepted_append]; exact List.append_nil _) (by simp [place])
        List.not_mem_nil ?_ ?_
      · rwa [List.append_nil] at moved
      · intro num
        rw [now, place]
        simp [numbers, WorkerPlace.held, Nat.add_comm]
      · intro num printed
        rw [List.append_nil] at printed
        apply sound.ahead_kept id printed
        intro other held _
        obtain ⟨earlier, less, rfl⟩ := mem_numbers sound printed
        rw [WorkerPlace.held, List.mem_singleton] at held
        omega
  case h_3 arg place =>
    cases taken
    have moved := sound.move_worker id (.print (state.args arg)) (by simp) [] sound.pool
      rfl (by simp [place]) List.not_mem_nil ?_ ?_
    · rwa [List.append_nil] at moved
    · intro num
      rw [place, args_of_held sound place]
      simp [numbers, WorkerPlace.held]
    · intro num printed
      rw [List.append_nil] at printed
      apply sound.ahead_kept id printed
      intro task held fresh
      rw [args_of_held sound place] at held
      exact absurd held (by rwa [place] at fresh)
  case h_4 num place =>
    cases taken
    have moved := sound.move_worker id .pop (by simp) [.task num] sound.pool
      rfl (by simp [place]) (by simp) ?_ ?_
    · exact moved
    · intro other
      rw [place]
      simp [numbers, WorkerPlace.held]
    · intro other printed
      rw [numbers_append, List.mem_append] at printed
      rcases printed with earlier | now
      · exact sound.ahead_kept id earlier (by simp [WorkerPlace.held])
      · -- the worker that has printed holds nothing
        refine ⟨id, ?_⟩
        rw [Function.update_self]
        simp [WorkerPlace.held]

theorem reachable_sound {state : State workers} (reached : Reachable (system workers) state) :
    Sound state := by
  apply reachable_invariant _ _ reached
  · exact fun _ => initial_sound
  · intro state label after _ sound taken
    obtain ⟨honest, advanced⟩ := taken
    cases label with
    | main signalled => exact main_sound sound honest advanced
    | worker id => exact worker_sound sound advanced
    | wake id =>
        obtain ⟨pool, woken, rfl⟩ := Option.map_eq_some_iff.mp advanced
        have history : pool.history = state.pool.history := by
          simp only [Pool.advance] at woken
          split_ifs at woken
          cases woken
          rfl
        refine { sound with pool := ?_, submitted := ?_, shown := ?_ }
        · exact ThreadPool.step_sound sound.pool
            (show (ThreadPool.system (Fin workers) Nat).step state.pool (.wake id) pool from
              ⟨trivial, woken⟩)
        · rw [history]
          exact sound.submitted
        · rw [history]
          exact sound.shown

/-! ## The end of a run -/

def MainPlace.steps (workers : Nat) : MainPlace → Nat
  | .create i => 2 * (workers - i) + 7 * maxTask + 3
  | .fill i => 7 * (maxTask - i) + 2
  | .push i => 7 * (maxTask - i) + 1
  | .join _ => 1
  | .returned => 0

def WorkerPlace.steps (place : WorkerPlace) (phase : Phase) : Nat :=
  match place with
  | .absent => 0
  | .pop => if phase = .waiting then 0 else 1
  | .read _ => 3
  | .print _ => 2

namespace WorkerPlace

theorem steps_read (arg : Nat) (phase : Phase) : (read arg).steps phase = 3 := rfl

theorem steps_print (num : Int) (phase : Phase) : (print num).steps phase = 2 := rfl

theorem steps_pop_waiting : pop.steps .waiting = 0 := rfl

theorem steps_pop {phase : Phase} (awake : phase ≠ .waiting) : pop.steps phase = 1 :=
  if_neg awake

theorem steps_pop_le (phase : Phase) : pop.steps phase ≤ 1 := by
  cases phase <;> decide

end WorkerPlace

/-- A task in the queue is worth the steps of the worker that takes it, and a call of `push`
those of its task and of the worker that is woken. -/
def State.work (state : State workers) : Nat :=
  state.main.steps workers + 3 * state.pool.queue.count.toNat +
    ∑ id, (state.worker id).steps (state.pool.phase id)

theorem steps_of_wake (place : WorkerPlace) (phase : Phase) :
    place.steps .woken ≤ place.steps phase + 1 := by
  cases place with
  | pop => exact Nat.le_add_left _ _
  | absent => exact Nat.zero_le _
  | read arg => exact Nat.le_add_right _ _
  | print num => exact Nat.le_add_right _ _

theorem push_work {state : State workers} (sound : Sound state) {i : Nat}
    {signalled : Option (Fin workers)} {pool : Pool (Fin workers) Nat}
    (atPush : state.main = .push i)
    (advanced : state.pool.advance (.push i signalled) = some pool) :
    3 * pool.queue.count.toNat + ∑ id, (state.worker id).steps (pool.phase id) ≤
      3 * state.pool.queue.count.toNat + ∑ id, (state.worker id).steps (state.pool.phase id) + 4 := by
  have granted := push_granted sound atPush
  rcases push_cases sound.pool.formed i with refused | ⟨queue, pushed, _, _, count⟩
  · rw [refused] at granted
    cases granted
  · simp only [Pool.advance, pushed, if_true, Option.some.injEq] at advanced
    subst advanced
    cases signalled with
    | none =>
        simp only [Pool.signal]
        omega
    | some woken =>
        have exchanged := sum_exchange
          (fun id => (state.worker id).steps (state.pool.phase id))
          (fun id => (state.worker id).steps (Function.update state.pool.phase woken .woken id))
          woken (fun other different => by simp only [Function.update_of_ne different])
        have more := steps_of_wake (state.worker woken) (state.pool.phase woken)
        simp only [Function.update_self] at exchanged
        simp only [Pool.signal]
        omega

theorem main_lowers_work {state after : State workers} {signalled : Option (Fin workers)}
    (sound : Sound state) (taken : state.mainStep signalled = some after) :
    after.work < state.work := by
  unfold State.mainStep at taken
  split at taken
  case h_1 i place =>
    split_ifs at taken with more
    · cases taken
      have exchanged := sum_exchange
        (fun id => (state.worker id).steps (state.pool.phase id))
        (fun id => (Function.update state.worker ⟨i, more⟩ .pop id).steps (state.pool.phase id))
        ⟨i, more⟩ (fun other different => by simp only [Function.update_of_ne different])
      have one := WorkerPlace.steps_pop_le (state.pool.phase ⟨i, more⟩)
      simp only [Function.update_self] at exchanged
      simp only [State.work, State.setWorker, place, MainPlace.steps]
      omega
    · cases taken
      simp only [State.work, place, MainPlace.steps]
      omega
  case h_2 i place =>
    split_ifs at taken with more
    · cases taken
      simp only [State.work, place, MainPlace.steps]
      omega
    · cases taken
      simp only [State.work, place, MainPlace.steps]
      omega
  case h_3 i place =>
    obtain ⟨pool, advanced, same⟩ := Option.bind_eq_some_iff.mp taken
    cases same
    have room := sound.room i place
    have bound := push_work sound place advanced
    simp only [State.work, place, MainPlace.steps]
    omega
  case h_4 i place =>
    split_ifs at taken with joining
    cases taken
    simp only [State.work, place, MainPlace.steps]
    omega
  case h_5 place => cases taken

theorem worker_lowers_work {state after : State workers} {id : Fin workers}
    (sound : Sound state) (taken : state.workerStep id = some after) :
    after.work < state.work := by
  -- only the term of the worker changes
  have exchanged : ∀ (place : WorkerPlace) (phase : Phase),
      ∑ other, (Function.update state.worker id place other).steps
          (Function.update state.pool.phase id phase other) +
        (state.worker id).steps (state.pool.phase id) =
      ∑ other, (state.worker other).steps (state.pool.phase other) + place.steps phase := by
    intro place phase
    have whole := sum_exchange (fun other => (state.worker other).steps (state.pool.phase other))
      (fun other => (Function.update state.worker id place other).steps
        (Function.update state.pool.phase id phase other)) id
      (fun other different => by simp only [Function.update_of_ne different])
    simpa only [Function.update_self] using whole
  unfold State.workerStep at taken
  split at taken
  case h_1 place => cases taken
  case h_2 place =>
    obtain ⟨pool, advanced, same⟩ := Option.bind_eq_some_iff.mp taken
    simp only [Pool.advance] at advanced
    split_ifs at advanced with blocked
    rcases pop_cases sound.pool.formed with ⟨waits, _⟩ | ⟨task, queue, popped, _, _, count⟩
    · rw [waits] at advanced same
      cases advanced
      cases same
      have less := exchanged .pop .waiting
      rw [← place, Function.update_eq_self, place, WorkerPlace.steps_pop blocked,
        WorkerPlace.steps_pop_waiting] at less
      simp only [State.work]
      omega
    · rw [popped] at advanced same
      cases advanced
      cases same
      have less := exchanged (.read task) .elsewhere
      rw [place, WorkerPlace.steps_pop blocked, WorkerPlace.steps_read] at less
      simp only [State.work, State.setWorker]
      omega
  case h_3 arg place =>
    cases taken
    have less := exchanged (.print (state.args arg)) (state.pool.phase id)
    rw [Function.update_eq_self, place, WorkerPlace.steps_read, WorkerPlace.steps_print] at less
    simp only [State.work, State.setWorker]
    omega
  case h_4 num place =>
    cases taken
    have less := exchanged .pop (state.pool.phase id)
    rw [Function.update_eq_self, place, WorkerPlace.steps_print] at less
    have one := WorkerPlace.steps_pop_le (state.pool.phase id)
    simp only [State.work, State.setWorker]
    omega

theorem step_lowers_work (state : State workers) (label : Label workers) (after : State workers)
    (reached : Reachable (system workers) state) (taken : (system workers).step state label after)
    (deliberate : ¬ Spurious state label) : after.work < state.work := by
  have sound := reachable_sound reached
  obtain ⟨_, advanced⟩ := taken
  cases label with
  | main signalled => exact main_lowers_work sound advanced
  | worker id => exact worker_lowers_work sound advanced
  | wake id => exact absurd trivial deliberate

/-- `main` is held up by the first `pthread_join`. -/
theorem reachable_joining {state : State workers} (reached : Reachable (system workers) state) :
    (∀ i, state.main = .join i → i = 0) ∧ (state.main = .returned → workers = 0) := by
  apply reachable_invariant _ _ reached
  · rintro state ⟨_, main, _⟩
    simp [main]
  · intro state label after _ joining taken
    obtain ⟨_, advanced⟩ := taken
    cases label with
    | main signalled =>
        simp only [State.advance, State.mainStep] at advanced
        split at advanced
        case h_1 i place =>
          split_ifs at advanced
          · cases advanced
            simp
          · cases advanced
            simp
        case h_2 i place =>
          split_ifs at advanced
          · cases advanced
            simp
          · cases advanced
            simp
        case h_3 i place =>
          obtain ⟨pool, _, same⟩ := Option.bind_eq_some_iff.mp advanced
          cases same
          simp
        case h_4 i place =>
          split_ifs at advanced with more
          cases advanced
          have first := joining.1 i place
          simp only [reduceCtorEq, false_implies, implies_true, true_and, true_implies]
          omega
        case h_5 place => cases advanced
    | worker id =>
        have kept : after.main = state.main := by
          simp only [State.advance, State.workerStep] at advanced
          split at advanced
          case h_1 place => cases advanced
          case h_2 place =>
            obtain ⟨pool, _, same⟩ := Option.bind_eq_some_iff.mp advanced
            split at same
            · cases same
              rfl
            · cases same
              rfl
          case h_3 arg place =>
            cases advanced
            rfl
          case h_4 num place =>
            cases advanced
            rfl
        rw [kept]
        exact joining
    | wake id =>
        obtain ⟨pool, _, rfl⟩ := Option.map_eq_some_iff.mp advanced
        exact joining

/-- Nothing can happen but a worker that wakes by itself. -/
def Quiet (state : State workers) : Prop :=
  ∀ label after, (system workers).step state label after → Spurious state label

theorem push_possible (pool : Pool (Fin workers) Nat) (task : Nat) :
    ∃ signalled after, ThreadPool.Honest pool (.push task signalled) ∧
      pool.advance (.push task signalled) = some after := by
  by_cases blocked : ∃ id, pool.phase id = .waiting
  · obtain ⟨id, waiting⟩ := blocked
    exact ⟨some id, _, waiting, rfl⟩
  · exact ⟨none, _, fun id waiting => blocked ⟨id, waiting⟩, rfl⟩

theorem quiet_joins {state : State workers} (reached : Reachable (system workers) state)
    (quiet : Quiet state) (started : 0 < workers) : state.main = .join 0 := by
  have stuck : ∀ signalled, Honest state (.main signalled) → state.mainStep signalled = none :=
    fun signalled honest => Option.eq_none_iff_forall_not_mem.mpr fun after taken =>
      quiet (.main signalled) after ⟨honest, taken⟩
  have joining := reachable_joining reached
  cases place : state.main with
  | create i =>
      have never := stuck none (by simp [Honest, place])
      simp only [State.mainStep, place] at never
      split_ifs at never
  | fill i =>
      have never := stuck none (by simp [Honest, place])
      simp only [State.mainStep, place] at never
      split_ifs at never
  | push i =>
      obtain ⟨signalled, pool, honest, advanced⟩ := push_possible state.pool i
      have never := stuck signalled (by
        intro other atPush
        rw [place] at atPush
        cases atPush
        exact honest)
      simp [State.mainStep, place, advanced] at never
  | join i => rw [joining.1 i place]
  | returned => exact absurd (joining.2 place) (Nat.ne_of_gt started)

theorem quiet_waits {state : State workers} (reached : Reachable (system workers) state)
    (quiet : Quiet state) (id : Fin workers) :
    state.worker id = .pop ∧ state.pool.phase id = .waiting := by
  have sound := reachable_sound reached
  have stuck : state.workerStep id = none :=
    Option.eq_none_iff_forall_not_mem.mpr fun after taken =>
      quiet (.worker id) after ⟨trivial, taken⟩
  have started : state.worker id ≠ .absent := by
    apply (sound.started id).mp
    rw [quiet_joins reached quiet (Nat.zero_lt_of_lt id.isLt)]
    exact id.isLt
  cases place : state.worker id with
  | absent => exact absurd place started
  | pop =>
      refine ⟨rfl, ?_⟩
      by_contra awake
      cases result : pop state.pool.queue with
      | none => simp [State.workerStep, place, Pool.advance, awake, result] at stuck
      | some popped => simp [State.workerStep, place, Pool.advance, awake, result] at stuck
  | read arg => simp [State.workerStep, place] at stuck
  | print num => simp [State.workerStep, place] at stuck

theorem count_returned_le {state : State workers} (sound : Sound state) (num : Int) :
    ((returned state.pool.history).map Nat.cast).count num ≤ 1 := by
  rw [returned_range sound]
  apply List.nodup_iff_count_le_one.mp
  exact List.Nodup.map (fun _ _ same => Int.ofNat.inj same) List.nodup_range

theorem numbers_nodup {state : State workers} (sound : Sound state) :
    (numbers state.output).Nodup := by
  apply List.nodup_iff_count_le_one.mpr
  intro num
  have shown := sound.shown num
  have once := count_returned_le sound num
  unfold shows at shown
  omega

theorem held_length (place : WorkerPlace) : place.held.length ≤ 1 := by
  cases place with
  | absent => exact Nat.zero_le 1
  | pop => exact Nat.zero_le 1
  | read arg => exact Nat.le_refl 1
  | print num => exact Nat.le_refl 1

/-- The numbers below a printed one that are still missing. -/
def overtaken (output : List Line) (num : Int) : List Nat :=
  (List.range num.toNat).filter fun task => (task : Int) ∉ numbers output

/-- A missing number is with a worker, and not with the one that stands behind. -/
theorem overtaken_length {state : State workers} (sound : Sound state) {num : Int}
    (printed : num ∈ numbers state.output) : (overtaken state.output num).length < workers := by
  obtain ⟨behind, later⟩ := sound.ahead num printed
  obtain ⟨last, taken, rfl⟩ := mem_numbers sound printed
  have distinct : (overtaken state.output last).Nodup := List.nodup_range.filter _
  have inHands : (overtaken state.output last).toFinset ⊆
      (Finset.univ.erase behind).biUnion fun id =>
        ((state.worker id).held.map Int.toNat).toFinset := by
    intro task member
    simp only [overtaken, List.mem_toFinset, List.mem_filter, List.mem_range, Int.toNat_natCast,
      decide_eq_true_eq] at member
    obtain ⟨less, missing⟩ := member
    have shown := sound.shown task
    have once : 0 < ((returned state.pool.history).map Nat.cast).count (task : Int) := by
      rw [List.count_pos_iff, returned_range sound]
      exact List.mem_map.mpr ⟨task, List.mem_range.mpr (by omega), rfl⟩
    rw [shows, List.count_eq_zero.mpr missing, Nat.zero_add] at shown
    rw [← shown] at once
    obtain ⟨id, _, holds⟩ := Finset.exists_ne_zero_of_sum_ne_zero once.ne'
    have held := List.count_pos_iff.mp (Nat.pos_of_ne_zero holds)
    have other : id ≠ behind := by
      rintro rfl
      have := later task held
      omega
    rw [Finset.mem_biUnion]
    exact ⟨id, Finset.mem_erase.mpr ⟨other, Finset.mem_univ id⟩,
      List.mem_toFinset.mpr (List.mem_map.mpr ⟨task, held, Int.toNat_natCast task⟩)⟩
  have bound : (overtaken state.output last).length ≤ (workers - 1) * 1 := by
    rw [← List.toFinset_card_of_nodup distinct]
    apply (Finset.card_le_card inHands).trans
    have hands := Finset.card_biUnion_le_card_mul (Finset.univ.erase behind)
      (fun id => ((state.worker id).held.map Int.toNat).toFinset) 1
      (fun id _ => (List.toFinset_card_le _).trans (by
        rw [List.length_map]
        exact held_length _))
    rwa [Finset.card_erase_of_mem (Finset.mem_univ behind), Finset.card_univ,
      Fintype.card_fin] at hands
  have := behind.isLt
  omega

theorem quiet_output {state : State workers} (reached : Reachable (system workers) state)
    (quiet : Quiet state) (started : 0 < workers) :
    (numbers state.output).Perm ((List.range maxTask).map Nat.cast) := by
  have sound := reachable_sound reached
  have joins := quiet_joins reached quiet started
  have waits := quiet_waits reached quiet
  have : Nonempty (Fin workers) := ⟨⟨0, started⟩⟩
  have noTask := no_task_of_all_waiting sound.pool.covered fun id => (waits id).2
  have all : returned state.pool.history = List.range maxTask := by
    have delivered := sound.pool.delivered
    have nothing := Ring.contents_of_empty state.pool.queue
      (by have := sound.pool.formed.nonneg; omega)
    rw [sound.submitted, joins, nothing, List.append_nil] at delivered
    exact delivered.symm
  rw [List.perm_iff_count]
  intro num
  have shown := sound.shown num
  have idle : ∑ id, (state.worker id).held.count num = 0 := by
    apply Finset.sum_eq_zero
    intro id _
    rw [(waits id).1]
    rfl
  rw [shows, idle, all] at shown
  exact shown

/-- However many workers there are, no task is refused and each is printed at most once; a
number that is printed has fewer missing ones below it than there are workers. A run without
end needs workers that wake by themselves again and again; any other one comes to rest with
every task printed, all workers at the condition variable and `main` at its first join. -/
theorem tasks_printed_once (workers : Nat) :
    (∀ states, InfiniteRun (system workers) states → ∀ start, ∃ index label, start ≤ index ∧
      Spurious (states index) label ∧
      (system workers).step (states index) label (states (index + 1))) ∧
    ∀ state : State workers, Reachable (system workers) state →
      Line.refused ∉ state.output ∧ (numbers state.output).Nodup ∧
      (∀ num ∈ numbers state.output, 0 ≤ num ∧ num < maxTask ∧
        (overtaken state.output num).length < workers) ∧
      (0 < workers → state.main ≠ .returned) ∧
      (Quiet state → 0 < workers → state.main = .join 0 ∧
        (∀ id, state.pool.phase id = .waiting) ∧
        (numbers state.output).Perm ((List.range maxTask).map Nat.cast)) := by
  refine ⟨fun states endless => infinite_run_recurs State.work step_lowers_work endless, ?_⟩
  intro state reached
  have sound := reachable_sound reached
  refine ⟨sound.unrefused, numbers_nodup sound, ?_, ?_, ?_⟩
  · intro num printed
    obtain ⟨task, taken, rfl⟩ := mem_numbers sound printed
    have delivered := congrArg List.length sound.pool.delivered
    rw [sound.submitted, List.length_range, List.length_append] at delivered
    have bound := sound.bound
    exact ⟨by omega, by omega, overtaken_length sound printed⟩
  · intro started returned
    exact absurd ((reachable_joining reached).2 returned) (Nat.ne_of_gt started)
  · intro quiet started
    exact ⟨quiet_joins reached quiet started, fun id => (quiet_waits reached quiet id).2,
      quiet_output reached quiet started⟩

end LinuxSystemPrograms.ThreadPoolTasks
