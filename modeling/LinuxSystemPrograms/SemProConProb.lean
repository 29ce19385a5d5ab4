import LinuxSystemPrograms.Transition
import Mathlib.Logic.Function.Basic
import Mathlib.Tactic.SplitIfs

/-!
# `sem_pro_con_prob.c`

A label says which thread makes its next step: `sem_wait`, the section under the mutex, or
`sem_post`. The slot of an item is protected by the two semaphores only, so `Sound` relates
both loop counters, both semaphores and the slots in every state between two steps.
-/

namespace LinuxSystemPrograms.SemProConProb

open LinuxSystemPrograms.Transition

set_option autoImplicit false

def bufSize : Nat := 10

def slot (i : Nat) : Fin bufSize := ⟨i % bufSize, Nat.mod_lt _ (by decide)⟩

theorem slot_ne {first second : Nat} (less : first < second) (near : second < first + bufSize) :
    slot first ≠ slot second := by
  intro same
  have values : first % bufSize = second % bufSize := congrArg Fin.val same
  simp only [bufSize] at values near
  omega

abbrev Data := Fin bufSize → Int

def produce (i : Nat) (data : Data) : Data := Function.update data (slot i) i

/-- The value that is printed, and the slots behind it. -/
def consume (i : Nat) (data : Data) : Int × Data :=
  (data (slot i), Function.update data (slot i) 0)

inductive Place where
  | semWait
  | locked
  | semPost
  deriving DecidableEq, Repr

structure Thread where
  index : Nat
  place : Place
  deriving DecidableEq, Repr

structure State where
  data : Data
  full : Nat
  empty : Nat
  producer : Thread
  consumer : Thread
  printed : List Int

inductive Label where
  | producer
  | consumer
  deriving DecidableEq, Repr

/-- A blocked or finished thread gives `none`. -/
def advance (iterations : Nat) (state : State) : Label → Option State
  | .producer =>
      match state.producer.place with
      | .semWait =>
          if state.producer.index < iterations ∧ 0 < state.empty then
            some { state with
              empty := state.empty - 1
              producer := { state.producer with place := .locked } }
          else none
      | .locked =>
          some { state with
            data := produce state.producer.index state.data
            producer := { state.producer with place := .semPost } }
      | .semPost =>
          some { state with
            full := state.full + 1
            producer := ⟨state.producer.index + 1, .semWait⟩ }
  | .consumer =>
      match state.consumer.place with
      | .semWait =>
          if state.consumer.index < iterations ∧ 0 < state.full then
            some { state with
              full := state.full - 1
              consumer := { state.consumer with place := .locked } }
          else none
      | .locked =>
          let (value, data) := consume state.consumer.index state.data
          some { state with
            data := data
            consumer := { state.consumer with place := .semPost }
            printed := state.printed ++ [value] }
      | .semPost =>
          some { state with
            empty := state.empty + 1
            consumer := ⟨state.consumer.index + 1, .semWait⟩ }

/-- `buf_init` and `semaphore_init`. -/
def boot : State where
  data _ := 0
  full := 0
  empty := bufSize
  producer := ⟨0, .semWait⟩
  consumer := ⟨0, .semWait⟩
  printed := []

def system (iterations : Nat) : System State Label where
  init state := state = boot
  step state label after := advance iterations state label = some after

namespace Thread

def sections (thread : Thread) : Nat :=
  match thread.place with
  | .semPost => thread.index + 1
  | _ => thread.index

/-- A token between `sem_wait` and `sem_post`. -/
def held (thread : Thread) : Nat :=
  match thread.place with
  | .semWait => 0
  | _ => 1

def Finished (iterations : Nat) (thread : Thread) : Prop :=
  thread.place = .semWait ∧ thread.index = iterations

end Thread

structure Sound (iterations : Nat) (state : State) : Prop where
  available : state.full + state.consumer.index + state.consumer.held = state.producer.index
  free : state.empty + state.producer.index + state.producer.held =
    state.consumer.index + bufSize
  producing : state.producer.index + state.producer.held ≤ iterations
  stored : ∀ item, state.consumer.sections ≤ item → item < state.producer.sections →
    state.data (slot item) = item
  printed : state.printed = (List.range state.consumer.sections).map fun item : Nat => (item : Int)

theorem boot_sound (iterations : Nat) : Sound iterations boot where
  available := rfl
  free := rfl
  producing := Nat.zero_le _
  stored _ _ produced := absurd produced (Nat.not_lt_zero _)
  printed := rfl

theorem produce_stored {data : Data} {first next : Nat} (room : next < first + bufSize)
    (stored : ∀ item, first ≤ item → item < next → data (slot item) = item) :
    ∀ item, first ≤ item → item < next + 1 → produce next data (slot item) = item := by
  intro item notConsumed produced
  unfold produce
  by_cases new : item = next
  · rw [new, Function.update_self]
  · rw [Function.update_of_ne (slot_ne (by omega) (by omega))]
    exact stored item notConsumed (by omega)

theorem consume_stored {data : Data} {first next : Nat} (room : next ≤ first + bufSize)
    (stored : ∀ item, first ≤ item → item < next → data (slot item) = item) :
    ∀ item, first + 1 ≤ item → item < next → (consume first data).2 (slot item) = item := by
  intro item notConsumed produced
  have kept : (consume first data).2 (slot item) = data (slot item) :=
    Function.update_of_ne (slot_ne (by omega) (by omega)).symm _ _
  rw [kept]
  exact stored item (by omega) produced

theorem producer_sound {iterations : Nat} {state after : State} (sound : Sound iterations state)
    (advanced : advance iterations state .producer = some after) : Sound iterations after := by
  obtain ⟨data, full, empty, ⟨produced, place⟩, ⟨consumed, consumerPlace⟩, printed⟩ := state
  have available := sound.available
  have free := sound.free
  have producing := sound.producing
  have stored := sound.stored
  have logged := sound.printed
  cases place with
  | semWait =>
      simp only [advance] at advanced
      split_ifs at advanced with ready
      cases advanced
      simp only [Thread.held] at free producing
      refine ⟨available, ?_, ?_, stored, logged⟩
      · simp only [Thread.held]
        omega
      · simp only [Thread.held]
        omega
  | locked =>
      cases advanced
      refine ⟨available, free, producing, ?_, logged⟩
      have room : produced < Thread.sections ⟨consumed, consumerPlace⟩ + bufSize := by
        simp only [Thread.held] at free
        cases consumerPlace <;> simp only [Thread.sections] <;> omega
      exact produce_stored room stored
  | semPost =>
      cases advanced
      simp only [Thread.held] at free producing
      refine ⟨?_, ?_, ?_, stored, logged⟩
      · simp only at available ⊢
        omega
      · simp only [Thread.held]
        omega
      · simp only [Thread.held]
        omega

theorem consumer_sound {iterations : Nat} {state after : State} (sound : Sound iterations state)
    (advanced : advance iterations state .consumer = some after) : Sound iterations after := by
  obtain ⟨data, full, empty, ⟨produced, producerPlace⟩, ⟨consumed, place⟩, printed⟩ := state
  have available := sound.available
  have free := sound.free
  have stored := sound.stored
  have logged := sound.printed
  cases place with
  | semWait =>
      simp only [advance] at advanced
      split_ifs at advanced with ready
      cases advanced
      simp only [Thread.held] at available
      refine ⟨?_, free, sound.producing, stored, logged⟩
      simp only [Thread.held]
      omega
  | locked =>
      cases advanced
      simp only [Thread.held] at available
      have room : Thread.sections ⟨produced, producerPlace⟩ ≤ consumed + bufSize := by
        simp only at free
        cases producerPlace <;> simp only [Thread.sections, Thread.held] at free ⊢ <;> omega
      have there : consumed < Thread.sections ⟨produced, producerPlace⟩ := by
        cases producerPlace <;> simp only [Thread.sections] <;> omega
      refine ⟨available, free, sound.producing, consume_stored room stored, ?_⟩
      have value : data (slot consumed) = consumed := stored consumed (Nat.le_refl _) there
      simp only at logged
      simp only [Thread.sections] at logged ⊢
      rw [List.range_succ, List.map_append, logged, value]
      rfl
  | semPost =>
      cases advanced
      simp only [Thread.held] at available
      refine ⟨?_, ?_, sound.producing, stored, logged⟩
      · simp only [Thread.held]
        omega
      · simp only at free ⊢
        omega

theorem reachable_sound {iterations : Nat} {state : State}
    (reached : Reachable (system iterations) state) : Sound iterations state := by
  apply reachable_invariant _ _ reached
  · rintro _ rfl
    exact boot_sound iterations
  · intro state label after _ sound taken
    cases label with
    | producer => exact producer_sound sound taken
    | consumer => exact consumer_sound sound taken

/-- The items that are produced and not yet consumed are never more than there are slots. -/
theorem Sound.sections {iterations : Nat} {state : State} (sound : Sound iterations state) :
    state.consumer.sections ≤ state.producer.sections ∧
      state.producer.sections ≤ state.consumer.sections + bufSize := by
  obtain ⟨data, full, empty, ⟨produced, place⟩, ⟨consumed, consumerPlace⟩, printed⟩ := state
  have available := sound.available
  have free := sound.free
  simp only at available free
  cases place <;> cases consumerPlace <;>
    simp only [Thread.sections, Thread.held] at available free ⊢ <;> omega

/-- The slot that the producer is about to write belongs to no item still to be consumed. -/
theorem Sound.unused {iterations : Nat} {state : State} (sound : Sound iterations state)
    {item : Nat} (notConsumed : state.consumer.sections ≤ item)
    (produced : item < state.producer.sections) (writing : state.producer.place = .locked) :
    slot item ≠ slot state.producer.index := by
  have free := sound.free
  have before : state.producer.sections = state.producer.index := by
    rw [Thread.sections, writing]
  have token : state.producer.held = 1 := by rw [Thread.held, writing]
  have passed : state.consumer.index ≤ state.consumer.sections := by
    unfold Thread.sections
    split <;> omega
  apply slot_ne (by omega)
  omega

/-- A thread that is not at `sem_wait` is never blocked, and both are at `sem_wait` without a
token only when they have finished. -/
theorem Sound.progress {iterations : Nat} {state : State} (sound : Sound iterations state) :
    (state.producer.Finished iterations ∧ state.consumer.Finished iterations) ∨
      ∃ label after, (system iterations).step state label after := by
  by_contra stuck
  rw [not_or, not_exists] at stuck
  obtain ⟨unfinished, blocked⟩ := stuck
  have none : ∀ label, advance iterations state label = none := by
    intro label
    by_contra some
    obtain ⟨after, result⟩ := Option.ne_none_iff_exists'.mp some
    exact blocked label ⟨after, result⟩
  have producer := none .producer
  have consumer := none .consumer
  have available := sound.available
  have free := sound.free
  have producing := sound.producing
  unfold advance at producer consumer
  cases producerPlace : state.producer.place with
  | locked => simp [producerPlace] at producer
  | semPost => simp [producerPlace] at producer
  | semWait =>
      cases consumerPlace : state.consumer.place with
      | locked => simp [consumerPlace] at consumer
      | semPost => simp [consumerPlace] at consumer
      | semWait =>
          simp only [producerPlace, ite_eq_right_iff, reduceCtorEq, imp_false] at producer
          simp only [consumerPlace, ite_eq_right_iff, reduceCtorEq, imp_false] at consumer
          simp only [Thread.held, producerPlace, consumerPlace, bufSize] at available free producing
          apply unfinished
          simp only [Thread.Finished, producerPlace, consumerPlace, true_and]
          omega

/-- The semaphores deliver every item once, in order and unharmed, and neither thread is left
behind. -/
theorem every_item_delivered_once (iterations : Nat) {state : State}
    (reached : Reachable (system iterations) state) :
    state.printed = ((List.range state.consumer.sections).map fun item : Nat => (item : Int)) ∧
      (∀ item, state.consumer.sections ≤ item → item < state.producer.sections →
        state.data (slot item) = item ∧
          (state.producer.place = .locked → slot item ≠ slot state.producer.index)) ∧
      (state.consumer.sections ≤ state.producer.sections ∧
        state.producer.sections ≤ state.consumer.sections + bufSize) ∧
      state.full + state.empty + (state.producer.held + state.consumer.held) = bufSize ∧
      ((state.producer.Finished iterations ∧ state.consumer.Finished iterations) ∨
        ∃ label after, (system iterations).step state label after) := by
  have sound := reachable_sound reached
  refine ⟨sound.printed, ?_, sound.sections, ?_, sound.progress⟩
  · intro item notConsumed produced
    exact ⟨sound.stored item notConsumed produced, sound.unused notConsumed produced⟩
  · have available := sound.available
    have free := sound.free
    omega

theorem next_sound (iterations : Nat) (state : State) (label : Label) (after : State)
    (result : advance iterations state label = some after) :
    (system iterations).step state label after := result

theorem every_item_delivered_once_two_items :
    ∃ state, Reachable (system 2) state ∧ state.producer.Finished 2 ∧ state.consumer.Finished 2 ∧
      state.printed = [0, 1] := by
  let round : List Label := [.producer, .producer, .producer, .consumer, .consumer, .consumer]
  obtain ⟨state, reached, producer, consumer⟩ := exists_reachable_of_run (next_sound 2) rfl
    (round ++ round)
    (fun state => state.producer = ⟨2, .semWait⟩ ∧ state.consumer = ⟨2, .semWait⟩)
    (by decide +kernel)
  have printed := (every_item_delivered_once 2 reached).1
  refine ⟨state, reached, ?_, ?_, ?_⟩
  · rw [producer]
    exact ⟨rfl, rfl⟩
  · rw [consumer]
    exact ⟨rfl, rfl⟩
  · rw [printed, consumer]
    rfl

end LinuxSystemPrograms.SemProConProb
