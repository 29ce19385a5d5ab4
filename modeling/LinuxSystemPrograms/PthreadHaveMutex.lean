import LinuxSystemPrograms.PthreadNoMutex

/-!
# `pthread_have_mutex.c`

The same two loops, each between `pthread_mutex_lock` and `pthread_mutex_unlock`. Forgetting
the mutex gives a run of `pthread_no_mutex.c`, of whose outcomes one is left.
-/

namespace LinuxSystemPrograms.PthreadHaveMutex

open LinuxSystemPrograms.Transition
open LinuxSystemPrograms.PthreadNoMutex (Name Thread)

set_option autoImplicit false

/-- Before the lock, between lock and unlock, after the unlock. -/
inductive Place where
  | lock
  | loop
  | returned
  deriving DecidableEq, Repr

/-- `mutex` is the thread that holds it. -/
structure State where
  memory : PthreadNoMutex.State
  mutex : Option Name
  place : Name → Place

inductive Label where
  | thread (name : Name)
  | main
  deriving DecidableEq, Repr

/-- A thread whose loop is over unlocks. -/
def advance (iterations : Nat) (state : State) : Label → Option State
  | .thread name =>
      match state.place name with
      | .lock =>
          if state.mutex = none then
            some { state with mutex := some name, place := Function.update state.place name .loop }
          else none
      | .loop =>
          match (state.memory.threads name).access iterations state.memory.count with
          | some (count, thread) =>
              some { state with memory := { state.memory with count := count }.setThread name thread }
          | none =>
              some { state with mutex := none, place := Function.update state.place name .returned }
      | .returned => none
  | .main =>
      if state.memory.printed = none ∧ state.place .th1 = .returned ∧
          state.place .th2 = .returned then
        some { state with memory := { state.memory with printed := some state.memory.count } }
      else none

def boot : State := ⟨PthreadNoMutex.boot, none, fun _ => .lock⟩

def system (iterations : Nat) : System State Label where
  init state := state = boot
  step state label after := advance iterations state label = some after

theorem advance_cases {iterations : Nat} {state after : State} {label : Label}
    (taken : advance iterations state label = some after) :
    (∃ name, label = .thread name ∧ state.place name = .lock ∧ state.mutex = none ∧
      after = ⟨state.memory, some name, Function.update state.place name .loop⟩) ∨
    (∃ name count thread, label = .thread name ∧ state.place name = .loop ∧
      (state.memory.threads name).access iterations state.memory.count = some (count, thread) ∧
      after = { state with
        memory := { state.memory with count := count }.setThread name thread }) ∨
    (∃ name, label = .thread name ∧ state.place name = .loop ∧
      (state.memory.threads name).access iterations state.memory.count = none ∧
      after = ⟨state.memory, none, Function.update state.place name .returned⟩) ∨
    (label = .main ∧ state.memory.printed = none ∧ (∀ name, state.place name = .returned) ∧
      after = { state with
        memory := { state.memory with printed := some state.memory.count } }) := by
  cases label with
  | thread name =>
      simp only [advance] at taken
      cases place : state.place name with
      | lock =>
          rw [place] at taken
          simp only at taken
          split_ifs at taken with free
          exact .inl ⟨name, rfl, place, free, (Option.some.inj taken).symm⟩
      | loop =>
          rw [place] at taken
          simp only at taken
          split at taken
          · rename_i count thread moved
            exact .inr (.inl ⟨name, count, thread, rfl, place, moved, (Option.some.inj taken).symm⟩)
          · rename_i done
            exact .inr (.inr (.inl ⟨name, rfl, place, done, (Option.some.inj taken).symm⟩))
      | returned =>
          rw [place] at taken
          cases taken
  | main =>
      simp only [advance] at taken
      split_ifs at taken with ready
      refine .inr (.inr (.inr ⟨rfl, ready.1, ?_, (Option.some.inj taken).symm⟩))
      intro name
      cases name
      · exact ready.2.1
      · exact ready.2.2

/-- `counted` holds because only the owner of the mutex has a loaded value. -/
structure Sound (iterations : Nat) (state : State) : Prop where
  owner : ∀ name, state.place name = .loop ↔ state.mutex = some name
  before : ∀ name, state.place name = .lock → state.memory.threads name = ⟨0, none⟩
  behind : ∀ name, state.place name = .returned → state.memory.threads name = ⟨iterations, none⟩
  counter : ∀ name, (state.memory.threads name).i ≤ iterations
  loaded : ∀ name value, (state.memory.threads name).register = some value →
    state.place name = .loop ∧ (state.memory.threads name).i < iterations ∧
      value = state.memory.count
  counted : state.memory.count = state.memory.stores
  reported : ∀ value, state.memory.printed = some value →
    value = state.memory.count ∧ ∀ name, state.place name = .returned

theorem boot_sound (iterations : Nat) : Sound iterations boot where
  owner _ := by simp [boot]
  before _ _ := rfl
  behind _ behind := by cases behind
  counter _ := Nat.zero_le _
  loaded _ _ loaded := by cases loaded
  counted := rfl
  reported _ result := by cases result

theorem sound_lock {iterations : Nat} {state : State} {name : Name}
    (sound : Sound iterations state) (place : state.place name = .lock)
    (free : state.mutex = none) :
    Sound iterations ⟨state.memory, some name, Function.update state.place name .loop⟩ := by
  have outside : ∀ query, state.place query ≠ .loop := by
    intro query looping
    have holder := (sound.owner query).mp looping
    rw [free] at holder
    cases holder
  refine { sound with owner := ?_, before := ?_, behind := ?_, loaded := ?_, reported := ?_ }
  · intro query
    by_cases same : query = name
    · simp [same]
    · simp [same, outside query, Ne.symm same]
  · intro query waiting
    by_cases same : query = name
    · simp [same] at waiting
    · exact sound.before query (by simpa [same] using waiting)
  · intro query ended
    by_cases same : query = name
    · simp [same] at ended
    · exact sound.behind query (by simpa [same] using ended)
  · intro query value loaded
    exact absurd (sound.loaded query value loaded).1 (outside query)
  · intro value result
    have behind := (sound.reported value result).2 name
    rw [place] at behind
    cases behind

theorem sound_unlock {iterations : Nat} {state : State} {name : Name}
    (sound : Sound iterations state) (place : state.place name = .loop)
    (done : (state.memory.threads name).access iterations state.memory.count = none) :
    Sound iterations ⟨state.memory, none, Function.update state.place name .returned⟩ := by
  have holder := (sound.owner name).mp place
  rw [Thread.access_eq_none] at done
  have rest : state.memory.threads name = ⟨iterations, none⟩ := by
    have bound := sound.counter name
    cases reading : state.memory.threads name with
    | mk i register =>
        rw [reading] at done bound
        simp only at done bound
        rw [done.2, show i = iterations by omega]
  have outside : ∀ query, query ≠ name → state.place query ≠ .loop := by
    intro query different looping
    have other := (sound.owner query).mp looping
    rw [holder, Option.some.injEq] at other
    exact different other.symm
  refine { sound with owner := ?_, before := ?_, behind := ?_, loaded := ?_, reported := ?_ }
  · intro query
    by_cases same : query = name
    · simp [same]
    · simp [same, outside query same]
  · intro query waiting
    by_cases same : query = name
    · simp [same] at waiting
    · exact sound.before query (by simpa [same] using waiting)
  · intro query ended
    by_cases same : query = name
    · rw [same]
      exact rest
    · exact sound.behind query (by simpa [same] using ended)
  · intro query value loaded
    by_cases same : query = name
    · rw [same, rest] at loaded
      cases loaded
    · exact absurd (sound.loaded query value loaded).1 (outside query same)
  · intro value result
    have behind := (sound.reported value result).2 name
    rw [place] at behind
    cases behind

theorem sound_access {iterations count : Nat} {state : State} {name : Name} {thread : Thread}
    (sound : Sound iterations state) (place : state.place name = .loop)
    (moved : (state.memory.threads name).access iterations state.memory.count =
      some (count, thread)) :
    Sound iterations { state with
      memory := { state.memory with count := count }.setThread name thread } := by
  generalize written : { state.memory with count := count }.setThread name thread = memory
  have self : memory.threads name = thread := by
    rw [← written, PthreadNoMutex.State.set_thread_self]
  have others : ∀ query, query ≠ name → memory.threads query = state.memory.threads query := by
    intro query different
    rw [← written, PthreadNoMutex.State.set_thread_of_ne _ different]
  have counts : memory.count = count := by
    rw [← written]
    rfl
  have unloaded : ∀ query, query ≠ name → (memory.threads query).register = none := by
    intro query different
    rw [others query different, Option.eq_none_iff_forall_not_mem]
    intro value loaded
    have holder := (sound.owner query).mp (sound.loaded query value loaded).1
    rw [(sound.owner name).mp place, Option.some.injEq] at holder
    exact different holder.symm
  have different : name.other ≠ name := by cases name <;> decide
  have stores : memory.stores = thread.i + (state.memory.threads name.other).i := by
    rw [PthreadNoMutex.stores_eq memory name, self, others _ different]
  have before := PthreadNoMutex.stores_eq state.memory name
  have counted := sound.counted
  have bound := sound.counter name
  have effect : thread.i ≤ iterations ∧ count = memory.stores ∧
      ∀ value, thread.register = some value → thread.i < iterations ∧ value = count := by
    obtain ⟨-, more, rfl, rfl⟩ | ⟨value, loaded, rfl, rfl⟩ := Thread.access_cases moved
    · simp only at stores
      refine ⟨bound, by omega, fun value loaded => ⟨more, ?_⟩⟩
      simpa using loaded.symm
    · simp only at stores
      have inside := sound.loaded name value loaded
      exact ⟨inside.2.1, by omega, fun value loaded => by cases loaded⟩
  refine ⟨sound.owner, ?_, ?_, ?_, ?_, ?_, ?_⟩
  · intro query waiting
    by_cases same : query = name
    · rw [same, place] at waiting
      cases waiting
    · rw [others query same]
      exact sound.before query waiting
  · intro query ended
    by_cases same : query = name
    · rw [same, place] at ended
      cases ended
    · rw [others query same]
      exact sound.behind query ended
  · intro query
    by_cases same : query = name
    · rw [same, self]
      exact effect.1
    · rw [others query same]
      exact sound.counter query
  · intro query value loaded
    by_cases same : query = name
    · rw [same, self] at loaded
      rw [same, self, counts]
      exact ⟨place, effect.2.2 value loaded⟩
    · rw [unloaded query same] at loaded
      cases loaded
  · rw [counts]
    exact effect.2.1
  · intro value result
    have printed : state.memory.printed = some value := by
      rw [← result, ← written]
      rfl
    have behind := (sound.reported value printed).2 name
    rw [place] at behind
    cases behind

theorem reachable_sound {iterations : Nat} {state : State}
    (reached : Reachable (system iterations) state) : Sound iterations state := by
  apply reachable_invariant _ _ reached
  · rintro state rfl
    exact boot_sound iterations
  · intro state label after _ sound taken
    obtain ⟨name, rfl, place, free, rfl⟩ | ⟨name, count, thread, rfl, place, moved, rfl⟩ |
      ⟨name, rfl, place, done, rfl⟩ | ⟨rfl, unprinted, behind, rfl⟩ := advance_cases taken
    · exact sound_lock sound place free
    · exact sound_access sound place moved
    · exact sound_unlock sound place done
    · exact { sound with
        reported := by
          intro value result
          rw [Option.some.injEq] at result
          exact ⟨result.symm, behind⟩ }

/-- The steps on the mutex are invisible without it. -/
theorem reachable_memory {iterations : Nat} {state : State}
    (reached : Reachable (system iterations) state) :
    Reachable (PthreadNoMutex.system iterations) state.memory := by
  apply reachable_map State.memory _ _ reached
  · rintro state rfl
    rfl
  · intro state label after prior taken
    have sound := reachable_sound prior
    obtain ⟨name, rfl, place, free, rfl⟩ | ⟨name, count, thread, rfl, place, moved, rfl⟩ |
      ⟨name, rfl, place, done, rfl⟩ | ⟨rfl, unprinted, behind, rfl⟩ := advance_cases taken
    · exact .inl rfl
    · refine .inr ⟨.thread name, ?_⟩
      simp only [PthreadNoMutex.system, PthreadNoMutex.advance, moved, Option.map_some]
    · exact .inl rfl
    · have returned : ∀ name, (state.memory.threads name).Returned iterations := by
        intro name
        rw [sound.behind name (behind name)]
        exact ⟨rfl, rfl⟩
      refine .inr ⟨.main, ?_⟩
      simp [PthreadNoMutex.system, PthreadNoMutex.advance, unprinted, returned]

def Place.calls : Place → Nat
  | .lock => 2
  | .loop => 1
  | .returned => 0

def State.work (iterations : Nat) (state : State) : Nat :=
  state.memory.work iterations + (state.place .th1).calls + (state.place .th2).calls

theorem calls_lower {place : Name → Place} {name : Name} {later : Place}
    (less : later.calls < (place name).calls) :
    (Function.update place name later .th1).calls + (Function.update place name later .th2).calls <
      (place .th1).calls + (place .th2).calls := by
  cases name
  · simp only [Function.update_self]
    rw [Function.update_of_ne (by decide)]
    omega
  · simp only [Function.update_self]
    rw [Function.update_of_ne (by decide)]
    omega

theorem step_lowers_work {iterations : Nat} (state : State) (label : Label) (after : State)
    (reached : Reachable (system iterations) state)
    (taken : (system iterations).step state label after) :
    after.work iterations < state.work iterations := by
  have sound := reachable_sound reached
  obtain ⟨name, rfl, place, free, rfl⟩ | ⟨name, count, thread, rfl, place, moved, rfl⟩ |
    ⟨name, rfl, place, done, rfl⟩ | ⟨rfl, unprinted, behind, rfl⟩ := advance_cases taken
  · have less : Place.calls .loop < (state.place name).calls := by
      rw [place]
      decide
    have lower := calls_lower less
    simp only [State.work]
    omega
  · have lower := PthreadNoMutex.access_lowers_work
      (fun value loaded => (sound.loaded name value loaded).2.1) moved
    simp only [State.work]
    omega
  · have less : Place.calls .returned < (state.place name).calls := by
      rw [place]
      decide
    have lower := calls_lower less
    simp only [State.work]
    omega
  · simp [State.work, PthreadNoMutex.State.work, unprinted]

/-- The owner of the mutex can always go on, and a free mutex can be taken. -/
theorem halted_printed {iterations : Nat} {state : State}
    (reached : Reachable (system iterations) state) (halted : Halted (system iterations) state) :
    state.memory.printed = some (2 * iterations) := by
  have sound := reachable_sound reached
  have settled : ∀ name, state.place name ≠ .loop := by
    intro name place
    cases moved : (state.memory.threads name).access iterations state.memory.count with
    | none => exact halted (.thread name) _ (by simp only [system, advance, place, moved]; rfl)
    | some result =>
        exact halted (.thread name) _ (by simp only [system, advance, place, moved]; rfl)
  have free : state.mutex = none := by
    rw [Option.eq_none_iff_forall_not_mem]
    intro name holder
    exact settled name ((sound.owner name).mpr holder)
  have behind : ∀ name, state.place name = .returned := by
    intro name
    cases place : state.place name with
    | lock =>
        exact absurd (by simp only [system, advance, place, free, if_true])
          (halted (.thread name) ⟨state.memory, some name, Function.update state.place name .loop⟩)
    | loop => exact absurd place (settled name)
    | returned => rfl
  cases printed : state.memory.printed with
  | none =>
      exact absurd (by simp [system, advance, printed, behind]) (halted .main { state with
        memory := { state.memory with printed := some state.memory.count } })
  | some value =>
      have stores : state.memory.stores = 2 * iterations := by
        simp only [PthreadNoMutex.State.stores, sound.behind _ (behind _)]
        omega
      rw [(sound.reported value printed).1, sound.counted, stores]

/-- Whatever the scheduler does, the program is a run of the one without a mutex that ends,
never waits for ever, and prints the number of increments. -/
theorem printed_exact (iterations : Nat) :
    (∀ states, ¬ InfiniteRun (system iterations) states) ∧
    ∀ state, Reachable (system iterations) state →
      Reachable (PthreadNoMutex.system iterations) state.memory ∧
      (Halted (system iterations) state → state.memory.printed = some (2 * iterations)) ∧
      ∀ value, state.memory.printed = some value → value = 2 * iterations := by
  refine ⟨no_infinite_run (State.work iterations) step_lowers_work, fun state reached =>
    ⟨reachable_memory reached, halted_printed reached, fun value printed => ?_⟩⟩
  have sound := reachable_sound reached
  obtain ⟨rfl, behind⟩ := sound.reported value printed
  have stores : state.memory.stores = 2 * iterations := by
    simp only [PthreadNoMutex.State.stores, sound.behind _ (behind _)]
    omega
  rw [sound.counted, stores]

end LinuxSystemPrograms.PthreadHaveMutex
