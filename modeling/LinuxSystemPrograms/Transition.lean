import Mathlib.Logic.Relation

/-!
# Labelled transition systems and their invariants

A label carries everything the environment decides at a step, so that `step` may be
the graph of a function of the program. A property of every run is proved once per
step through `reachable_invariant`; `guarded` keeps only the steps whose label the
condition allows, so that a conditional result is again a result about runs.
-/

namespace LinuxSystemPrograms.Transition

set_option autoImplicit false

structure System (State Label : Type*) where
  init : State → Prop
  step : State → Label → State → Prop

variable {State Label : Type*}

inductive Reachable (system : System State Label) : State → Prop where
  | start {state : State} (initial : system.init state) : Reachable system state
  | next {state after : State} (label : Label)
      (prior : Reachable system state) (taken : system.step state label after) :
      Reachable system after

/-- The induction over a run, packaged once: what holds at the start and survives one
step of a reachable state holds in every reachable state. -/
theorem reachable_invariant {system : System State Label} {Good : State → Prop}
    (base : ∀ state, system.init state → Good state)
    (keeps : ∀ state label after, Reachable system state → Good state →
      system.step state label after → Good after)
    {state : State} (reached : Reachable system state) : Good state := by
  induction reached with
  | start initial => exact base _ initial
  | next label prior taken ih => exact keeps _ label _ prior ih taken

/-- The runs of `system` whose steps all meet `Allowed`. -/
def guarded (system : System State Label) (Allowed : State → Label → Prop) :
    System State Label where
  init := system.init
  step state label after := Allowed state label ∧ system.step state label after

theorem reachable_of_guarded {system : System State Label} {Allowed : State → Label → Prop}
    {state : State} (reached : Reachable (guarded system Allowed) state) :
    Reachable system state := by
  induction reached with
  | start initial => exact .start initial
  | next label _ taken ih => exact .next label ih taken.2

/-- A weaker guard keeps at least the runs of a stronger one. -/
theorem reachable_guarded_mono {system : System State Label}
    {Stronger Weaker : State → Label → Prop}
    (weaker : ∀ state label, Stronger state label → Weaker state label) {state : State}
    (reached : Reachable (guarded system Stronger) state) :
    Reachable (guarded system Weaker) state := by
  induction reached with
  | start initial => exact .start initial
  | next label _ taken ih => exact .next label ih ⟨weaker _ label taken.1, taken.2⟩

/-- A guard that every step meets removes no run. -/
theorem reachable_guarded_of_allowed {system : System State Label}
    {Allowed : State → Label → Prop}
    (allowed : ∀ state label after, Reachable system state →
      system.step state label after → Allowed state label)
    {state : State} (reached : Reachable system state) :
    Reachable (guarded system Allowed) state := by
  induction reached with
  | start initial => exact .start initial
  | next label prior taken ih => exact .next label ih ⟨allowed _ _ _ prior taken, taken⟩

/-- In a guarded run the breach of the guard that a state would record has not happened. -/
theorem guarded_not_breached {system : System State Label} {Allowed : State → Label → Prop}
    {Breached : State → Prop} (clean : ∀ state, system.init state → ¬ Breached state)
    (records : ∀ state label after, Reachable system state → system.step state label after →
      (Breached after ↔ Breached state ∨ ¬ Allowed state label))
    {state : State} (reached : Reachable (guarded system Allowed) state) : ¬ Breached state := by
  have base : ∀ state, (guarded system Allowed).init state → ¬ Breached state := clean
  apply reachable_invariant base _ reached
  intro state label after prior unbreached taken breached
  rcases (records state label after (reachable_of_guarded prior) taken.2).mp breached with
    early | forbidden
  · exact unbreached early
  · exact forbidden taken.1

def Halted (system : System State Label) (state : State) : Prop :=
  ∀ label after, ¬ system.step state label after

/-- Where every step lowers a measure, each run can go on until it halts. -/
theorem exists_halted {system : System State Label} (work : State → Nat)
    (lowers : ∀ state label after, Reachable system state → system.step state label after →
      work after < work state)
    {state : State} (reached : Reachable system state) :
    ∃ last, Reachable system last ∧ Halted system last := by
  induction size : work state using Nat.strongRecOn generalizing state with
  | ind amount ih =>
      by_cases halted : Halted system state
      · exact ⟨state, reached, halted⟩
      · simp only [Halted, Classical.not_forall, Classical.not_not] at halted
        obtain ⟨label, after, taken⟩ := halted
        have less : work after < amount := by
          rw [← size]
          exact lowers state label after reached taken
        exact ih (work after) less (.next label reached taken) rfl

def startedAt (system : System State Label) (start : State) : System State Label where
  init state := state = start
  step := system.step

theorem reachable_of_started {system : System State Label} {start state : State}
    (before : Reachable system start) (reached : Reachable (startedAt system start) state) :
    Reachable system state := by
  induction reached with
  | start initial =>
      cases initial
      exact before
  | next label _ taken ih => exact .next label ih taken

/-- Where some step lowers a measure as long as the goal is not reached, every run can go on
to the goal. -/
theorem exists_goal {system : System State Label} {Goal : State → Prop} (work : State → Nat)
    (goesOn : ∀ state, Reachable system state → ¬ Goal state →
      ∃ label after, system.step state label after ∧ work after < work state)
    {start : State} (before : Reachable system start) :
    ∃ last, Reachable (startedAt system start) last ∧ Goal last := by
  have onward : ∀ amount state, work state = amount →
      Reachable (startedAt system start) state →
      ∃ last, Reachable (startedAt system start) last ∧ Goal last := by
    intro amount
    induction amount using Nat.strongRecOn with
    | ind amount ih =>
        intro state size reached
        by_cases done : Goal state
        · exact ⟨state, reached, done⟩
        · obtain ⟨label, after, taken, less⟩ :=
            goesOn state (reachable_of_started before reached) done
          rw [size] at less
          exact ih (work after) less after rfl (.next label reached taken)
  exact onward (work start) start rfl (.start rfl)

/-- A run that never ends, by the states it goes through. -/
structure InfiniteRun (system : System State Label) (states : Nat → State) : Prop where
  initial : system.init (states 0)
  steps : ∀ index, ∃ label, system.step (states index) label (states (index + 1))

theorem InfiniteRun.reachable {system : System State Label} {states : Nat → State}
    (endless : InfiniteRun system states) (index : Nat) :
    Reachable system (states index) := by
  induction index with
  | zero => exact .start endless.initial
  | succ index ih =>
      obtain ⟨label, taken⟩ := endless.steps index
      exact .next label ih taken

/-- Where every other step lowers a measure, a run that never ends takes a `Recurring` step
again and again. -/
theorem infinite_run_recurs {system : System State Label} {Recurring : State → Label → Prop}
    (work : State → Nat)
    (lowers : ∀ state label after, Reachable system state → system.step state label after →
      ¬ Recurring state label → work after < work state)
    {states : Nat → State} (endless : InfiniteRun system states) (start : Nat) :
    ∃ index label, start ≤ index ∧ Recurring (states index) label ∧
      system.step (states index) label (states (index + 1)) := by
  apply Classical.byContradiction
  intro never
  have descends : ∀ count, work (states (start + count)) + count ≤ work (states start) := by
    intro count
    induction count with
    | zero => exact Nat.le_refl _
    | succ count ih =>
        obtain ⟨label, taken⟩ := endless.steps (start + count)
        have other : ¬ Recurring (states (start + count)) label := fun recurs =>
          never ⟨start + count, label, Nat.le_add_right _ _, recurs, taken⟩
        have less := lowers _ label _ (endless.reachable (start + count)) taken other
        show work (states (start + count + 1)) + (count + 1) ≤ work (states start)
        omega
  have tooLong := descends (work (states start) + 1)
  omega

/-- Where every step lowers a measure, every run ends. -/
theorem no_infinite_run {system : System State Label} (work : State → Nat)
    (lowers : ∀ state label after, Reachable system state → system.step state label after →
      work after < work state)
    (states : Nat → State) : ¬ InfiniteRun system states := by
  intro endless
  obtain ⟨_, _, _, never, _⟩ := @infinite_run_recurs _ _ system (fun _ _ => False) work
    (fun state label after reached taken _ => lowers state label after reached taken) states
    endless 0
  exact never

/-- A map of states under which every step is a step of the abstract system or none at all
takes runs to runs. -/
theorem reachable_map {Abstract AbstractLabel : Type*} {system : System State Label}
    {abstract : System Abstract AbstractLabel} (image : State → Abstract)
    (initial : ∀ state, system.init state → abstract.init (image state))
    (simulates : ∀ state label after, Reachable system state → system.step state label after →
      image after = image state ∨ ∃ abstractLabel,
        abstract.step (image state) abstractLabel (image after))
    {state : State} (reached : Reachable system state) : Reachable abstract (image state) := by
  induction reached with
  | start begins => exact .start (initial _ begins)
  | next label prior taken ih =>
      obtain same | ⟨abstractLabel, abstractTaken⟩ := simulates _ label _ prior taken
      · rw [same]
        exact ih
      · exact .next abstractLabel ih abstractTaken

def run (next : State → Label → Option State) : State → List Label → Option State
  | state, [] => some state
  | state, label :: rest => (next state label).bind fun after => run next after rest

theorem run_append (next : State → Label → Option State) (first second : List Label)
    (state : State) :
    run next state (first ++ second) =
      (run next state first).bind fun after => run next after second := by
  induction first generalizing state with
  | nil => rfl
  | cons label rest ih =>
      rw [List.cons_append, run, run, Option.bind_assoc]
      congr 1
      funext after
      exact ih after

theorem run_keeps {next : State → Label → Option State} {Good : State → Prop}
    (keeps : ∀ state label after, Good state → next state label = some after → Good after)
    {labels : List Label} {state final : State} (good : Good state)
    (result : run next state labels = some final) : Good final := by
  induction labels generalizing state with
  | nil =>
      rw [run, Option.some.injEq] at result
      rwa [← result]
  | cons label rest ih =>
      rw [run, Option.bind_eq_some_iff] at result
      obtain ⟨middle, stepped, remaining⟩ := result
      exact ih (keeps state label middle good stepped) remaining

theorem reachable_of_run {system : System State Label} {next : State → Label → Option State}
    (sound : ∀ state label after, next state label = some after → system.step state label after)
    {labels : List Label} {state after : State} (reached : Reachable system state)
    (result : run next state labels = some after) : Reachable system after :=
  run_keeps (fun state label after earlier taken =>
    .next label earlier (sound state label after taken)) reached result

/-- `next`, with no answer where the condition fails. -/
def guardedNext (next : State → Label → Option State) (Allowed : State → Label → Prop)
    [∀ state label, Decidable (Allowed state label)] (state : State) (label : Label) :
    Option State :=
  if Allowed state label then next state label else none

theorem guarded_next_sound {system : System State Label} {next : State → Label → Option State}
    (Allowed : State → Label → Prop) [∀ state label, Decidable (Allowed state label)]
    (sound : ∀ state label after, next state label = some after → system.step state label after)
    (state : State) (label : Label) (after : State)
    (result : guardedNext next Allowed state label = some after) :
    (guarded system Allowed).step state label after := by
  unfold guardedNext at result
  split at result
  · exact ⟨‹_›, sound state label after result⟩
  · cases result

/-- A run meets the guard exactly when the state it ends in records no breach of it. -/
theorem run_guarded_iff {next : State → Label → Option State} {Allowed : State → Label → Prop}
    [∀ state label, Decidable (Allowed state label)] {Sound Breached : State → Prop}
    (keeps : ∀ state label after, Sound state → next state label = some after → Sound after)
    (records : ∀ state label after, Sound state → next state label = some after →
      (Breached after ↔ Breached state ∨ ¬ Allowed state label))
    {labels : List Label} {state final : State} (sound : Sound state)
    (result : run next state labels = some final) :
    ¬ Breached final ↔
      ¬ Breached state ∧ run (guardedNext next Allowed) state labels = some final := by
  induction labels generalizing state with
  | nil =>
      rw [run, Option.some.injEq] at result
      simp [run, result]
  | cons label rest ih =>
      rw [run, Option.bind_eq_some_iff] at result
      obtain ⟨after, stepped, remaining⟩ := result
      rw [ih (keeps state label after sound stepped) remaining,
        records state label after sound stepped, not_or, Decidable.not_not, run, guardedNext]
      by_cases allowed : Allowed state label
      · simp [allowed, stepped]
      · simp [allowed]

/-- A run that ends in a state which passes a test shows that such a state is reachable. -/
theorem exists_reachable_of_run {system : System State Label}
    {next : State → Label → Option State}
    (sound : ∀ state label after, next state label = some after → system.step state label after)
    {state : State} (initial : system.init state) (labels : List Label) (test : State → Prop)
    [DecidablePred test] (passes : ((run next state labels).any fun after => test after) = true) :
    ∃ after, Reachable system after ∧ test after := by
  obtain ⟨after, result, passed⟩ := (Option.any_eq_true _ _).mp passes
  exact ⟨after, reachable_of_run sound (.start initial) result, of_decide_eq_true passed⟩

end LinuxSystemPrograms.Transition
