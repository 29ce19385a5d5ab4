import LinuxSystemPrograms.Transition
import Mathlib.Logic.Function.Basic
import Mathlib.Tactic.SplitIfs

/-!
# `pthread_no_mutex.c`

`count++` is a load into a register and a store of the register plus one; a label says
which thread makes its next access. The number of rounds stays a parameter: the source
has `rounds`. `Sound` bounds `count` and the registers from both sides by the number of
stores already made.
-/

namespace LinuxSystemPrograms.PthreadNoMutex

open LinuxSystemPrograms.Transition

set_option autoImplicit false

def rounds : Nat := 100000

inductive Name where
  | th1
  | th2
  deriving DecidableEq, Repr

/-- `i` and, between the load and the store of `count++`, the loaded value. -/
structure Thread where
  i : Nat
  register : Option Nat
  deriving DecidableEq, Repr

namespace Thread

/-- One access of the loop body, on `count` and the thread; `none` once it has returned. -/
def access (iterations count : Nat) (thread : Thread) : Option (Nat × Thread) :=
  match thread.register with
  | none =>
      if thread.i < iterations then some (count, { thread with register := some count })
      else none
  | some value => some (value + 1, ⟨thread.i + 1, none⟩)

/-- What an access can do. -/
theorem access_cases {iterations count later : Nat} {thread next : Thread}
    (moved : thread.access iterations count = some (later, next)) :
    (thread.register = none ∧ thread.i < iterations ∧ later = count ∧
      next = ⟨thread.i, some count⟩) ∨
    ∃ value, thread.register = some value ∧ later = value + 1 ∧ next = ⟨thread.i + 1, none⟩ := by
  unfold access at moved
  split at moved
  · rename_i idle
    split_ifs at moved with more
    simp only [Option.some.injEq, Prod.mk.injEq] at moved
    exact .inl ⟨idle, more, moved.1.symm, moved.2.symm⟩
  · rename_i value loaded
    simp only [Option.some.injEq, Prod.mk.injEq] at moved
    exact .inr ⟨value, loaded, moved.1.symm, moved.2.symm⟩

theorem access_eq_none {iterations count : Nat} {thread : Thread} :
    thread.access iterations count = none ↔ iterations ≤ thread.i ∧ thread.register = none := by
  unfold access
  split
  · rename_i idle
    simp [idle]
  · rename_i value loaded
    simp [loaded]

def Returned (iterations : Nat) (thread : Thread) : Prop :=
  thread.i = iterations ∧ thread.register = none

instance (iterations : Nat) (thread : Thread) : Decidable (thread.Returned iterations) :=
  inferInstanceAs (Decidable (_ ∧ _))

def accesses (iterations : Nat) (thread : Thread) : Nat :=
  match thread.register with
  | none => 2 * (iterations - thread.i)
  | some _ => 2 * (iterations - thread.i) - 1

theorem access_lowers {iterations count later : Nat} {thread next : Thread}
    (inside : ∀ value, thread.register = some value → thread.i < iterations)
    (moved : thread.access iterations count = some (later, next)) :
    next.accesses iterations < thread.accesses iterations := by
  obtain ⟨idle, more, -, rfl⟩ | ⟨value, loaded, -, rfl⟩ := access_cases moved
  · simp only [accesses, idle]
    omega
  · have more := inside value loaded
    simp only [accesses, loaded]
    omega

end Thread

structure State where
  count : Nat
  threads : Name → Thread
  printed : Option Nat

namespace State

def setThread (state : State) (name : Name) (thread : Thread) : State :=
  { state with threads := Function.update state.threads name thread }

@[simp] theorem set_thread_count (state : State) (name : Name) (thread : Thread) :
    (state.setThread name thread).count = state.count := rfl

@[simp] theorem set_thread_printed (state : State) (name : Name) (thread : Thread) :
    (state.setThread name thread).printed = state.printed := rfl

@[simp] theorem set_thread_self (state : State) (name : Name) (thread : Thread) :
    (state.setThread name thread).threads name = thread := by
  simp [setThread]

theorem set_thread_of_ne {state : State} {name query : Name} (thread : Thread)
    (different : query ≠ name) :
    (state.setThread name thread).threads query = state.threads query := by
  simp [setThread, different]

end State

inductive Label where
  | thread (name : Name)
  | main
  deriving DecidableEq, Repr

/-- `main` prints after both joins. -/
def advance (iterations : Nat) (state : State) : Label → Option State
  | .thread name =>
      ((state.threads name).access iterations state.count).map fun (count, thread) =>
        { state with count := count }.setThread name thread
  | .main =>
      if state.printed = none ∧ ∀ name ∈ [Name.th1, Name.th2],
          (state.threads name).Returned iterations then
        some { state with printed := some state.count }
      else none

def boot : State := ⟨0, fun _ => ⟨0, none⟩, none⟩

def system (iterations : Nat) : System State Label where
  init state := state = boot
  step state label after := advance iterations state label = some after

def Name.other : Name → Name
  | .th1 => .th2
  | .th2 => .th1

def State.stores (state : State) : Nat :=
  (state.threads .th1).i + (state.threads .th2).i

theorem stores_eq (state : State) (name : Name) :
    state.stores = (state.threads name).i + (state.threads name.other).i := by
  cases name
  · rfl
  · exact Nat.add_comm _ _

/-- What a step can do: a load, a store, or the last line of `main`. -/
theorem advance_cases {iterations : Nat} {state after : State} {label : Label}
    (taken : advance iterations state label = some after) :
    (∃ name, label = .thread name ∧ (state.threads name).register = none ∧
      (state.threads name).i < iterations ∧
      after = state.setThread name ⟨(state.threads name).i, some state.count⟩) ∨
    (∃ name value, label = .thread name ∧ (state.threads name).register = some value ∧
      after = { state with count := value + 1 }.setThread name
        ⟨(state.threads name).i + 1, none⟩) ∨
    (label = .main ∧ state.printed = none ∧ (∀ name, (state.threads name).Returned iterations) ∧
      after = { state with printed := some state.count }) := by
  cases label with
  | thread name =>
      rw [advance, Option.map_eq_some_iff] at taken
      obtain ⟨⟨later, thread⟩, moved, rfl⟩ := taken
      obtain ⟨idle, more, rfl, rfl⟩ | ⟨value, loaded, rfl, rfl⟩ := Thread.access_cases moved
      · exact .inl ⟨name, rfl, idle, more, rfl⟩
      · exact .inr (.inl ⟨name, value, rfl, loaded, rfl⟩)
  | main =>
      simp only [advance] at taken
      split_ifs at taken with ready
      right; right
      refine ⟨rfl, ready.1, ?_, by simpa using taken.symm⟩
      intro name
      cases name
      · exact ready.2 .th1 (by simp)
      · exact ready.2 .th2 (by simp)

/-- `seen` and `stored` say that a value read after a store is not 0, `paired` that the last
store of a thread finds a value which its own earlier store has left behind. -/
structure Sound (iterations : Nat) (state : State) : Prop where
  counter : ∀ name, (state.threads name).i ≤ iterations
  loading : ∀ name value, (state.threads name).register = some value →
    (state.threads name).i < iterations ∧ value ≤ state.stores
  above : state.count ≤ state.stores
  stored : 0 < state.stores → 0 < state.count
  seen : ∀ name value, (state.threads name).register = some value →
    0 < (state.threads name).i → 0 < value
  paired : (∀ name, (state.threads name).Returned iterations) → 2 ≤ state.count
  reported : ∀ value, state.printed = some value →
    value = state.count ∧ ∀ name, (state.threads name).Returned iterations

theorem boot_sound (iterations : Nat) (enough : 2 ≤ iterations) : Sound iterations boot where
  counter _ := Nat.zero_le _
  loading _ _ loaded := by cases loaded
  above := Nat.le_refl _
  stored positive := by cases positive
  seen _ _ loaded := by cases loaded
  paired returned := by
    have counted : 0 = iterations := (returned .th1).1
    omega
  reported _ result := by cases result

theorem sound_load {iterations : Nat} {state : State} {name : Name}
    (sound : Sound iterations state) (idle : (state.threads name).register = none)
    (more : (state.threads name).i < iterations) :
    Sound iterations (state.setThread name ⟨(state.threads name).i, some state.count⟩) := by
  have counters : ∀ query, ((state.setThread name
      ⟨(state.threads name).i, some state.count⟩).threads query).i = (state.threads query).i := by
    intro query
    by_cases same : query = name
    · subst same
      simp
    · rw [State.set_thread_of_ne _ same]
  have stores : (state.setThread name ⟨(state.threads name).i, some state.count⟩).stores =
      state.stores := by
    simp only [State.stores, counters]
  have unreturned : ¬ ∀ query, ((state.setThread name
      ⟨(state.threads name).i, some state.count⟩).threads query).Returned iterations := by
    intro returned
    have counted := (returned name).1
    rw [counters] at counted
    omega
  refine ⟨?_, ?_, ?_, ?_, ?_, fun returned => absurd returned unreturned, ?_⟩
  · intro query
    rw [counters]
    exact sound.counter query
  · intro query value loaded
    rw [counters, stores]
    by_cases same : query = name
    · subst same
      simp only [State.set_thread_self, Option.some.injEq] at loaded
      exact ⟨more, loaded ▸ sound.above⟩
    · rw [State.set_thread_of_ne _ same] at loaded
      exact sound.loading query value loaded
  · rw [stores]
    exact sound.above
  · rw [stores]
    exact sound.stored
  · intro query value loaded
    rw [counters]
    intro positive
    by_cases same : query = name
    · subst same
      simp only [State.set_thread_self, Option.some.injEq] at loaded
      rw [← loaded]
      apply sound.stored
      rw [stores_eq state query]
      omega
    · rw [State.set_thread_of_ne _ same] at loaded
      exact sound.seen query value loaded positive
  · intro value result
    have returned := ((sound.reported value result).2 name).1
    omega

theorem sound_store {iterations value : Nat} {state : State} {name : Name}
    (sound : Sound iterations state) (enough : 2 ≤ iterations)
    (loaded : (state.threads name).register = some value) :
    Sound iterations ({ state with count := value + 1 }.setThread name
      ⟨(state.threads name).i + 1, none⟩) := by
  generalize stored : { state with count := value + 1 }.setThread name
    ⟨(state.threads name).i + 1, none⟩ = after
  obtain ⟨more, low⟩ := sound.loading name value loaded
  have self : after.threads name = ⟨(state.threads name).i + 1, none⟩ := by
    rw [← stored, State.set_thread_self]
  have others : ∀ query, query ≠ name → after.threads query = state.threads query := by
    intro query different
    rw [← stored, State.set_thread_of_ne _ different]
  have count : after.count = value + 1 := by
    rw [← stored]
    rfl
  have stores : after.stores = state.stores + 1 := by
    have different : name.other ≠ name := by cases name <;> decide
    rw [stores_eq after name, stores_eq state name, self, others _ different]
    simp only
    omega
  refine ⟨?_, ?_, ?_, ?_, ?_, ?_, ?_⟩
  · intro query
    by_cases same : query = name
    · rw [same, self]
      exact more
    · rw [others query same]
      exact sound.counter query
  · intro query late loadedLate
    by_cases same : query = name
    · rw [same, self] at loadedLate
      cases loadedLate
    · rw [others query same] at loadedLate ⊢
      have bounds := sound.loading query late loadedLate
      exact ⟨bounds.1, by omega⟩
  · omega
  · omega
  · intro query late loadedLate positive
    by_cases same : query = name
    · rw [same, self] at loadedLate
      cases loadedLate
    · rw [others query same] at loadedLate positive
      exact sound.seen query late loadedLate positive
  · intro returned
    have counted := (returned name).1
    rw [self] at counted
    simp only at counted
    -- this is the last store of `name`, so its register was loaded after its first
    have positive := sound.seen name value loaded (by omega)
    omega
  · intro early result
    have printed : state.printed = some early := by
      rw [← result, ← stored]
      rfl
    have returned := ((sound.reported early printed).2 name).1
    omega

theorem reachable_sound {iterations : Nat} (enough : 2 ≤ iterations) {state : State}
    (reached : Reachable (system iterations) state) : Sound iterations state := by
  apply reachable_invariant _ _ reached
  · rintro state rfl
    exact boot_sound iterations enough
  · intro state label after _ sound taken
    obtain ⟨name, rfl, idle, more, rfl⟩ | ⟨name, value, rfl, loaded, rfl⟩ |
      ⟨rfl, unprinted, returned, rfl⟩ := advance_cases taken
    · exact sound_load sound idle more
    · exact sound_store sound enough loaded
    · exact { sound with
        reported := by
          intro value result
          rw [Option.some.injEq] at result
          exact ⟨result.symm, returned⟩ }

def State.work (iterations : Nat) (state : State) : Nat :=
  (state.threads .th1).accesses iterations + (state.threads .th2).accesses iterations +
    (if state.printed = none then 1 else 0)

theorem work_eq (iterations : Nat) (state : State) (name : Name) :
    state.work iterations = (state.threads name).accesses iterations +
      (state.threads name.other).accesses iterations +
        (if state.printed = none then 1 else 0) := by
  cases name
  · rfl
  · rw [State.work, Nat.add_comm (Thread.accesses _ _)]
    rfl

theorem work_set_thread (iterations : Nat) (state : State) (name : Name) (thread : Thread) :
    (state.setThread name thread).work iterations = thread.accesses iterations +
      (state.threads name.other).accesses iterations +
        (if state.printed = none then 1 else 0) := by
  have different : name.other ≠ name := by cases name <;> decide
  rw [work_eq iterations _ name, State.set_thread_self, State.set_thread_of_ne _ different]
  rfl

theorem access_lowers_work {iterations count : Nat} {state : State} {name : Name}
    {thread : Thread}
    (inside : ∀ value, (state.threads name).register = some value →
      (state.threads name).i < iterations)
    (moved : (state.threads name).access iterations state.count = some (count, thread)) :
    ({ state with count := count }.setThread name thread).work iterations <
      state.work iterations := by
  have lower := Thread.access_lowers inside moved
  rw [work_set_thread, work_eq iterations state name]
  simp only
  omega

theorem step_lowers_work {iterations : Nat} (enough : 2 ≤ iterations) (state : State)
    (label : Label) (after : State) (reached : Reachable (system iterations) state)
    (taken : (system iterations).step state label after) :
    after.work iterations < state.work iterations := by
  have sound := reachable_sound enough reached
  cases label with
  | thread name =>
      simp only [system, advance, Option.map_eq_some_iff] at taken
      obtain ⟨⟨later, thread⟩, moved, rfl⟩ := taken
      exact access_lowers_work (fun value loaded => (sound.loading name value loaded).1) moved
  | main =>
      obtain ⟨_, other, _⟩ | ⟨_, _, other, _⟩ | ⟨-, unprinted, -, rfl⟩ := advance_cases taken
      · cases other
      · cases other
      · simp [State.work, unprinted]

theorem halted_printed {iterations : Nat} {state : State} (enough : 2 ≤ iterations)
    (reached : Reachable (system iterations) state) (halted : Halted (system iterations) state) :
    ∃ value, state.printed = some value := by
  have sound := reachable_sound enough reached
  have returned : ∀ name, (state.threads name).Returned iterations := by
    intro name
    have stuck : ((state.threads name).access iterations state.count) = none := by
      rw [Option.eq_none_iff_forall_not_mem]
      rintro ⟨count, thread⟩ moved
      apply halted (.thread name) ({ state with count := count }.setThread name thread)
      simp only [system, advance]
      rw [Option.mem_def.mp moved]
      rfl
    have bound := sound.counter name
    rw [Thread.access_eq_none] at stuck
    exact ⟨by omega, stuck.2⟩
  by_contra unprinted
  have silent : state.printed = none := by
    rw [Option.eq_none_iff_forall_not_mem]
    exact fun value result => unprinted ⟨value, result⟩
  apply halted .main { state with printed := some state.count }
  simp [system, advance, silent, returned]

/-- The state `after` can follow, and only the counter and one thread differ. -/
structure Onward (iterations : Nat) (state after : State) (name : Name) (count : Nat)
    (thread : Thread) : Prop where
  reached : Reachable (system iterations) after
  counted : after.count = count
  own : after.threads name = thread
  other : after.threads name.other = state.threads name.other
  printed : after.printed = state.printed

theorem onward_set_thread {iterations count : Nat} {state : State} {name : Name}
    {thread : Thread} (reached : Reachable (system iterations) state)
    (moved : (state.threads name).access iterations state.count = some (count, thread)) :
    Onward iterations state ({ state with count := count }.setThread name thread) name count
      thread := by
  have taken : (system iterations).step state (.thread name)
      ({ state with count := count }.setThread name thread) := by
    simp only [system, advance]
    rw [moved]
    rfl
  have different : name.other ≠ name := by cases name <;> decide
  exact ⟨.next _ reached taken, rfl, State.set_thread_self _ _ _,
    State.set_thread_of_ne _ different, rfl⟩

theorem onward_load {iterations i : Nat} {state : State} (name : Name)
    (reached : Reachable (system iterations) state) (idle : state.threads name = ⟨i, none⟩)
    (more : i < iterations) :
    ∃ after, Onward iterations state after name state.count ⟨i, some state.count⟩ := by
  refine ⟨_, onward_set_thread reached ?_⟩
  simp [Thread.access, idle, more]

theorem onward_store {iterations i value : Nat} {state : State} (name : Name)
    (reached : Reachable (system iterations) state)
    (loaded : state.threads name = ⟨i, some value⟩) :
    ∃ after, Onward iterations state after name (value + 1) ⟨i + 1, none⟩ := by
  refine ⟨_, onward_set_thread reached ?_⟩
  simp [Thread.access, loaded]

/-- Rounds of one thread that the other does not interrupt lose nothing. -/
theorem onward_rounds {iterations i : Nat} {state : State} (name : Name)
    (reached : Reachable (system iterations) state) (idle : state.threads name = ⟨i, none⟩)
    (amount : Nat) (room : i + amount ≤ iterations) :
    ∃ after, Onward iterations state after name (state.count + amount) ⟨i + amount, none⟩ := by
  induction amount with
  | zero => exact ⟨state, reached, rfl, idle, rfl, rfl⟩
  | succ amount ih =>
      obtain ⟨middle, before⟩ := ih (by omega)
      obtain ⟨loaded, load⟩ := onward_load name before.reached before.own (by omega)
      obtain ⟨after, store⟩ := onward_store name load.reached load.own
      refine ⟨after, store.reached, ?_, store.own, ?_, ?_⟩
      · rw [store.counted, before.counted]
        rfl
      · rw [store.other, load.other, before.other]
      · rw [store.printed, load.printed, before.printed]

/-- `th1` keeps an early value in its register until `th2` is in its last round, and `th2`
then adds to what `th1` has stored. -/
theorem exists_printed {iterations value : Nat} (enough : 2 ≤ iterations) (low : 2 ≤ value)
    (high : value ≤ 2 * iterations) :
    ∃ state, Reachable (system iterations) state ∧ state.printed = some value := by
  obtain ⟨first, second, firstLow, secondLow, split⟩ : ∃ first second, first < iterations ∧
      second < iterations ∧ value = first + second + 2 :=
    ⟨min (value - 2) (iterations - 1), value - 2 - min (value - 2) (iterations - 1),
      by omega, by omega, by omega⟩
  have begun : Reachable (system iterations) boot := .start rfl
  obtain ⟨s1, m1⟩ := onward_rounds .th1 begun rfl first (by omega)
  obtain ⟨s2, m2⟩ := onward_rounds .th2 m1.reached m1.other second (by omega)
  obtain ⟨s3, m3⟩ := onward_load .th1 m2.reached (m2.other.trans m1.own) (by omega)
  obtain ⟨s4, m4⟩ := onward_rounds .th2 m3.reached (m3.other.trans m2.own)
    (iterations - 1 - second) (by omega)
  obtain ⟨s5, m5⟩ := onward_store .th1 m4.reached (m4.other.trans m3.own)
  obtain ⟨s6, m6⟩ := onward_load .th2 m5.reached (m5.other.trans m4.own) (by omega)
  obtain ⟨s7, m7⟩ := onward_rounds .th1 m6.reached (m6.other.trans m5.own)
    (iterations - 1 - first) (by omega)
  obtain ⟨s8, m8⟩ := onward_store .th2 m7.reached (m7.other.trans m6.own)
  have printed : s8.printed = none := by
    rw [m8.printed, m7.printed, m6.printed, m5.printed, m4.printed, m3.printed, m2.printed,
      m1.printed]
    rfl
  have count : s8.count = value := by
    have start : boot.count = 0 := rfl
    rw [m8.counted, m5.counted, m2.counted, m1.counted]
    omega
  have returned : ∀ name, (s8.threads name).Returned iterations := by
    intro name
    cases name with
    | th1 =>
        have kept : s8.threads .th1 = _ := m8.other.trans m7.own
        rw [kept]
        exact ⟨by simp only; omega, rfl⟩
    | th2 =>
        rw [m8.own]
        exact ⟨by simp only; omega, rfl⟩
  refine ⟨{ s8 with printed := some s8.count }, .next .main m8.reached ?_, by rw [count]⟩
  simp [system, advance, printed, returned]

/-- Every run ends and prints, and what it can print is exactly every number from 2 up to
the number of increments. -/
theorem printed_range (iterations : Nat) (enough : 2 ≤ iterations) :
    (∀ states, ¬ InfiniteRun (system iterations) states) ∧
    (∀ state, Reachable (system iterations) state → Halted (system iterations) state →
      ∃ value, state.printed = some value) ∧
    ∀ value, (∃ state, Reachable (system iterations) state ∧ state.printed = some value) ↔
      2 ≤ value ∧ value ≤ 2 * iterations := by
  refine ⟨no_infinite_run (State.work iterations) (step_lowers_work enough),
    fun state reached => halted_printed enough reached, fun value => ⟨?_, ?_⟩⟩
  · rintro ⟨state, reached, result⟩
    have sound := reachable_sound enough reached
    obtain ⟨rfl, returned⟩ := sound.reported value result
    have stores : state.stores = 2 * iterations := by
      have first := (returned .th1).1
      have second := (returned .th2).1
      simp only [State.stores]
      omega
    exact ⟨sound.paired returned, stores ▸ sound.above⟩
  · rintro ⟨low, high⟩
    exact exists_printed enough low high

theorem printed_range_rounds : (2 ≤ rounds) ∧
    ((∀ states, ¬ InfiniteRun (system rounds) states) ∧
    (∀ state, Reachable (system rounds) state → Halted (system rounds) state →
      ∃ value, state.printed = some value) ∧
    ∀ value, (∃ state, Reachable (system rounds) state ∧ state.printed = some value) ↔
      2 ≤ value ∧ value ≤ 2 * rounds) :=
  ⟨by decide, printed_range rounds (by decide)⟩

end LinuxSystemPrograms.PthreadNoMutex
