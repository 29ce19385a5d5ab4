import LinuxSystemPrograms.Transition
import Mathlib.Tactic.SplitIfs

/-!
# A `main` that creates its threads and joins them

The threads are a transition system whose labels know their thread. A thread makes steps once
`main` has created it, and `main` passes a `join` once that thread is done. What the threads
can do by themselves is what they can do in the program, and the program goes on as long as
they do.
-/

namespace LinuxSystemPrograms.ForkJoin

open LinuxSystemPrograms.Transition

set_option autoImplicit false

variable {State Label : Type*}

structure Threads (State Label : Type*) where
  system : System State Label
  count : Nat
  owner : Label → Nat
  done : Nat → State → Bool

inductive MainPlace where
  | create (i : Nat)
  | join (i : Nat)
  | returned
  deriving DecidableEq, Repr

structure Program (State : Type*) where
  main : MainPlace
  threads : State

namespace Threads

variable (pool : Threads State Label)

def created : MainPlace → Nat
  | .create i => i
  | _ => pool.count

def mainNext (state : State) : MainPlace → Option MainPlace
  | .create i => if i < pool.count then some (.create (i + 1)) else some (.join 0)
  | .join i =>
      if i < pool.count then if pool.done i state then some (.join (i + 1)) else none
      else some .returned
  | .returned => none

/-- `none` is a step of `main`. -/
def program : System (Program State) (Option Label) where
  init program := program.main = .create 0 ∧ pool.system.init program.threads
  step program label after :=
    match label with
    | none => pool.mainNext program.threads program.main = some after.main ∧
        after.threads = program.threads
    | some label => pool.owner label < pool.created program.main ∧
        pool.system.step program.threads label after.threads ∧ after.main = program.main

/-- The labels belong to threads, and a thread that is done stays so. -/
structure Regular : Prop where
  owned : ∀ label, pool.owner label < pool.count
  stays : ∀ id state label after, Reachable pool.system state → pool.done id state = true →
    pool.system.step state label after → pool.done id after = true

variable {pool}

theorem reachable_threads {program : Program State} (reached : Reachable pool.program program) :
    Reachable pool.system program.threads := by
  have begins : ∀ program : Program State, pool.program.init program →
      pool.system.init program.threads := fun _ initial => initial.2
  apply reachable_map Program.threads begins _ reached
  rintro before (_ | label) after _ taken
  · exact Or.inl taken.2
  · exact Or.inr ⟨label, taken.2.1⟩

def Joined (pool : Threads State Label) (program : Program State) : Prop :=
  match program.main with
  | .create i => i ≤ pool.count
  | .join i => i ≤ pool.count ∧ ∀ id, id < i → pool.done id program.threads = true
  | .returned => ∀ id, id < pool.count → pool.done id program.threads = true

theorem main_next_joined {state : State} {place later : MainPlace}
    (joined : pool.Joined ⟨place, state⟩) (stepped : pool.mainNext state place = some later) :
    pool.Joined ⟨later, state⟩ := by
  cases place with
  | create i =>
      simp only [mainNext] at stepped
      split_ifs at stepped with more
      · cases stepped
        exact more
      · cases stepped
        exact ⟨Nat.zero_le _, fun id earlier => absurd earlier (Nat.not_lt_zero id)⟩
  | join i =>
      obtain ⟨within, earlierDone⟩ := joined
      simp only [mainNext] at stepped
      split_ifs at stepped with more ended
      · cases stepped
        refine ⟨more, ?_⟩
        intro id earlier
        rcases Nat.lt_succ_iff_lt_or_eq.mp earlier with before | rfl
        · exact earlierDone id before
        · exact ended
      · cases stepped
        intro id inside
        exact earlierDone id (Nat.lt_of_lt_of_le inside (Nat.le_of_not_lt more))
  | returned => cases stepped

theorem reachable_joined (regular : pool.Regular) {program : Program State}
    (reached : Reachable pool.program program) : pool.Joined program := by
  apply reachable_invariant _ _ reached
  · rintro ⟨place, state⟩ ⟨begins, _⟩
    obtain rfl : place = .create 0 := begins
    exact Nat.zero_le _
  · rintro before (_ | label) ⟨later, state⟩ prior joined taken
    · obtain ⟨stepped, rfl⟩ := taken
      exact main_next_joined joined stepped
    · obtain ⟨_, stepped, sameMain⟩ := taken
      have stays := fun id finished =>
        regular.stays id _ label _ (reachable_threads prior) finished stepped
      unfold Joined at joined ⊢
      dsimp only at sameMain ⊢
      rw [sameMain]
      cases place : before.main with
      | create i =>
          rw [place] at joined
          exact joined
      | join i =>
          rw [place] at joined
          exact ⟨joined.1, fun id earlier => stays id (joined.2 id earlier)⟩
      | returned =>
          rw [place] at joined
          exact fun id inside => stays id (joined id inside)

/-- When `main` has returned, all threads are done. -/
theorem returned_done (regular : pool.Regular) {program : Program State}
    (reached : Reachable pool.program program) (returned : program.main = .returned) (id : Nat)
    (inside : id < pool.count) : pool.done id program.threads = true := by
  have joined := reachable_joined regular reached
  rw [Joined, returned] at joined
  exact joined id inside

theorem reachable_creating {state : State} (initial : pool.system.init state) (i : Nat)
    (within : i ≤ pool.count) : Reachable pool.program ⟨.create i, state⟩ := by
  induction i with
  | zero => exact .start ⟨rfl, initial⟩
  | succ i ih => exact .next none (ih (Nat.le_of_lt within)) ⟨if_pos within, rfl⟩

/-- All that the threads can do can happen while `main` waits. -/
theorem reachable_joining (regular : pool.Regular) {state : State}
    (reached : Reachable pool.system state) : Reachable pool.program ⟨.join 0, state⟩ := by
  induction reached with
  | start initial =>
      exact .next none (reachable_creating initial pool.count (Nat.le_refl _))
        ⟨if_neg (Nat.lt_irrefl _), rfl⟩
  | next label prior taken ih => exact .next (some label) ih ⟨regular.owned label, taken, rfl⟩

theorem reachable_returned (regular : pool.Regular) {state : State}
    (reached : Reachable pool.system state)
    (finished : ∀ id, id < pool.count → pool.done id state = true) :
    Reachable pool.program ⟨.returned, state⟩ := by
  have joins : ∀ i, i ≤ pool.count → Reachable pool.program ⟨.join i, state⟩ := by
    intro i within
    induction i with
    | zero => exact reachable_joining regular reached
    | succ i ih =>
        refine .next none (ih (Nat.le_of_lt within)) ⟨?_, rfl⟩
        simp only [mainNext, if_pos (show i < pool.count from within), finished i within, if_true]
  exact .next none (joins pool.count (Nat.le_refl _)) ⟨if_neg (Nat.lt_irrefl _), rfl⟩

/-- If the threads go on until all are done, the program goes on until `main` has returned. -/
theorem program_goes_on (regular : pool.Regular) {Recurring : Label → Prop}
    (goesOn : ∀ state, Reachable pool.system state →
      (∀ id, id < pool.count → pool.done id state = true) ∨
        ∃ label after, ¬ Recurring label ∧ pool.system.step state label after)
    {program : Program State} (reached : Reachable pool.program program) :
    program.main = .returned ∨ ∃ label after, pool.program.step program label after ∧
      ∀ inner, label = some inner → ¬ Recurring inner := by
  have mainStep : ∀ later, pool.mainNext program.threads program.main = some later →
      ∃ label after, pool.program.step program label after ∧
        ∀ inner, label = some inner → ¬ Recurring inner := by
    intro later stepped
    refine ⟨none, ⟨later, program.threads⟩, ⟨stepped, rfl⟩, ?_⟩
    intro inner none
    cases none
  cases place : program.main with
  | returned => exact Or.inl rfl
  | create i =>
      rw [place] at mainStep
      by_cases more : i < pool.count
      · exact Or.inr (mainStep _ (if_pos more))
      · exact Or.inr (mainStep _ (if_neg more))
  | join i =>
      rw [place] at mainStep
      by_cases more : i < pool.count
      · rcases goesOn _ (reachable_threads reached) with finished | ⟨label, after, proper, stepped⟩
        · apply Or.inr (mainStep (.join (i + 1)) _)
          simp only [mainNext, if_pos more, finished i more, if_true]
        · refine Or.inr ⟨some label, ⟨program.main, after⟩, ⟨?_, stepped, rfl⟩, ?_⟩
          · rw [place]
            exact regular.owned label
          · rintro inner ⟨⟩
            exact proper
      · exact Or.inr (mainStep _ (if_neg more))

def mainWork (pool : Threads State Label) : MainPlace → Nat
  | .create i => 2 * pool.count + 2 - i
  | .join i => pool.count + 1 - i
  | .returned => 0

theorem main_work_lowers {state : State} {place later : MainPlace}
    (joined : pool.Joined ⟨place, state⟩) (stepped : pool.mainNext state place = some later) :
    pool.mainWork later < pool.mainWork place := by
  cases place with
  | create i =>
      have within : i ≤ pool.count := joined
      simp only [mainNext] at stepped
      split_ifs at stepped
      · cases stepped
        simp only [mainWork]
        omega
      · cases stepped
        simp only [mainWork]
        omega
  | join i =>
      have within : i ≤ pool.count := joined.1
      simp only [mainNext] at stepped
      split_ifs at stepped
      · cases stepped
        simp only [mainWork]
        omega
      · cases stepped
        simp only [mainWork]
        omega
  | returned => cases stepped

/-- Where every other step of the threads lowers a measure, a run of the program that never
ends takes a `Recurring` step again and again. -/
theorem program_recurs (regular : pool.Regular) {Recurring : Label → Prop} (work : State → Nat)
    (lowers : ∀ state label after, Reachable pool.system state →
      pool.system.step state label after → ¬ Recurring label → work after < work state)
    {states : Nat → Program State} (endless : InfiniteRun pool.program states) (start : Nat) :
    ∃ index label, start ≤ index ∧ Recurring label ∧
      pool.program.step (states index) (some label) (states (index + 1)) := by
  have programLowers : ∀ before label after, Reachable pool.program before →
      pool.program.step before label after →
        ¬ (∃ inner, label = some inner ∧ Recurring inner) →
          pool.mainWork after.main + work after.threads <
            pool.mainWork before.main + work before.threads := by
    rintro before (_ | label) after prior taken once
    · obtain ⟨stepped, same⟩ := taken
      rw [same]
      exact Nat.add_lt_add_right (main_work_lowers (reachable_joined regular prior) stepped) _
    · obtain ⟨_, stepped, same⟩ := taken
      rw [same]
      apply Nat.add_lt_add_left
      exact lowers _ label _ (reachable_threads prior) stepped fun recurs => once ⟨label, rfl, recurs⟩
  obtain ⟨index, _, later, ⟨label, rfl, recurs⟩, taken⟩ :=
    infinite_run_recurs _ programLowers endless start
  exact ⟨index, label, later, recurs, taken⟩

end Threads

end LinuxSystemPrograms.ForkJoin
