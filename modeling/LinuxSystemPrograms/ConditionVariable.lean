import Mathlib.Data.Finset.Card
import Mathlib.Data.Fintype.Basic
import Mathlib.Logic.Function.Basic

/-!
# Condition variables whose signals are not remembered

Threads wait for tasks on one condition variable. A signal wakes one blocked thread and is
lost if there is none; a thread may also wake by itself, and it looks at the tasks only when
it has the mutex again. `Covered` is why one signal for each task is enough: as long as
some thread is blocked, no more tasks are there than threads that are woken and still have
to look.
-/

namespace LinuxSystemPrograms.ConditionVariable

set_option autoImplicit false

/-- Where a thread is with respect to one condition variable; `woken` is on the way back to
the mutex. -/
inductive Phase where
  | elsewhere
  | waiting
  | woken
  deriving DecidableEq, Repr

variable {Thread : Type*} {phase : Thread → Phase} {tasks : Nat}

theorem waiting_of_update [DecidableEq Thread] {thread other : Thread} {after : Phase}
    (notWaiting : after ≠ .waiting)
    (blocked : Function.update phase thread after other = .waiting) : phase other = .waiting := by
  by_cases same : other = thread
  · rw [same, Function.update_self] at blocked
    exact absurd blocked notWaiting
  · rwa [Function.update_of_ne same] at blocked

variable [Fintype Thread]

def wokenThreads (phase : Thread → Phase) : Finset Thread :=
  Finset.univ.filter fun thread => phase thread = .woken

def Covered (phase : Thread → Phase) (tasks : Nat) : Prop :=
  (∃ thread, phase thread = .waiting) → tasks ≤ (wokenThreads phase).card

theorem covered_without_tasks (phase : Thread → Phase) : Covered phase 0 :=
  fun _ => Nat.zero_le _

/-- A new task and a signal that finds nobody. -/
theorem covered_lost_signal (nobody : ∀ thread, phase thread ≠ .waiting) :
    Covered phase (tasks + 1) :=
  fun ⟨thread, blocked⟩ => absurd blocked (nobody thread)

/-- No task is left while all threads are blocked. -/
theorem no_task_of_all_waiting [Nonempty Thread] (covered : Covered phase tasks)
    (blocked : ∀ thread, phase thread = .waiting) : tasks = 0 := by
  obtain ⟨thread⟩ := ‹Nonempty Thread›
  have none : wokenThreads phase = ∅ := by
    apply Finset.filter_eq_empty_iff.mpr
    intro other _
    rw [blocked other]
    decide
  have bound := covered ⟨thread, blocked thread⟩
  rw [none, Finset.card_empty] at bound
  omega

variable [DecidableEq Thread]

theorem woken_threads_wake {thread : Thread} (blocked : phase thread = .waiting) :
    (wokenThreads (Function.update phase thread .woken)).card = (wokenThreads phase).card + 1 := by
  have grown : wokenThreads (Function.update phase thread .woken) =
      insert thread (wokenThreads phase) := by
    ext other
    by_cases same : other = thread
    · simp [wokenThreads, same]
    · simp [wokenThreads, same]
  have fresh : thread ∉ wokenThreads phase := by simp [wokenThreads, blocked]
  rw [grown, Finset.card_insert_of_notMem fresh]

/-- At most the thread itself is missing from the woken ones when it has taken a task. -/
theorem woken_threads_leave (phase : Thread → Phase) (thread : Thread) :
    (wokenThreads phase).card ≤
      (wokenThreads (Function.update phase thread .elsewhere)).card + 1 := by
  have kept : wokenThreads phase ⊆
      insert thread (wokenThreads (Function.update phase thread .elsewhere)) := by
    intro other member
    by_cases same : other = thread
    · rw [same]
      exact Finset.mem_insert_self _ _
    · apply Finset.mem_insert_of_mem
      simpa [wokenThreads, same] using member
  exact (Finset.card_le_card kept).trans (Finset.card_insert_le _ _)

/-- A new task and a signal that wakes a thread. -/
theorem covered_signal (covered : Covered phase tasks) {thread : Thread}
    (blocked : phase thread = .waiting) :
    Covered (Function.update phase thread .woken) (tasks + 1) := by
  intro _
  have before := covered ⟨thread, blocked⟩
  rw [woken_threads_wake blocked]
  omega

/-- Any thread at the mutex takes a task, whether it was woken for it or not. -/
theorem covered_take (covered : Covered phase (tasks + 1)) (thread : Thread) :
    Covered (Function.update phase thread .elsewhere) tasks := by
  rintro ⟨other, blocked⟩
  have before := covered ⟨other, waiting_of_update (by decide) blocked⟩
  have leaves := woken_threads_leave phase thread
  omega

/-- A spurious wake-up. -/
theorem covered_wake (covered : Covered phase tasks) {thread : Thread}
    (blocked : phase thread = .waiting) : Covered (Function.update phase thread .woken) tasks := by
  intro _
  have before := covered ⟨thread, blocked⟩
  rw [woken_threads_wake blocked]
  omega

end LinuxSystemPrograms.ConditionVariable
