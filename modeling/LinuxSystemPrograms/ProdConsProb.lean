import LinuxSystemPrograms.Transition
import Mathlib.Logic.Function.Basic
import Mathlib.Tactic.SplitIfs

/-!
# `prod_cons_prob.c`

A label says which thread makes its next step: the section between a lock and the unlock or
`pthread_cond_wait` that ends it, or `printf`. The consumer takes an item by clearing `ready`
and reads `data` only when it prints; what it prints is right as long as the producer does
not write in between.
-/

namespace LinuxSystemPrograms.ProdConsProb

open LinuxSystemPrograms.Transition

set_option autoImplicit false

/-- A thread that has been woken is at its lock again. -/
inductive Place where
  | lock
  | waiting
  | print
  deriving DecidableEq, Repr

structure Thread where
  index : Nat
  place : Place
  deriving DecidableEq, Repr

/-- `pthread_cond_signal`, or a wake-up without a signal. -/
def Thread.wake (thread : Thread) : Thread :=
  if thread.place = .waiting then { thread with place := .lock } else thread

/-- `created` is what the producer has printed, `printed` what the consumer has. -/
structure State where
  data : Int
  ready : Bool
  producer : Thread
  consumer : Thread
  created : List Int
  printed : List Int
  deriving DecidableEq, Repr

inductive Label where
  | producer
  | consumer
  | wakeProducer
  | wakeConsumer
  deriving DecidableEq, Repr

/-- A blocked or finished thread gives `none`. -/
def advance (iterations : Nat) (state : State) : Label → Option State
  | .producer =>
      match state.producer.place with
      | .lock =>
          if state.producer.index < iterations then
            if state.ready = true then
              some { state with producer := { state.producer with place := .waiting } }
            else
              some { state with
                data := state.producer.index + 1
                ready := true
                producer := { state.producer with place := .print }
                consumer := state.consumer.wake }
          else none
      | .waiting => none
      | .print =>
          some { state with
            producer := ⟨state.producer.index + 1, .lock⟩
            created := state.created ++ [state.data] }
  | .consumer =>
      match state.consumer.place with
      | .lock =>
          if state.consumer.index < iterations then
            if state.ready = false then
              some { state with consumer := { state.consumer with place := .waiting } }
            else
              some { state with
                ready := false
                producer := state.producer.wake
                consumer := { state.consumer with place := .print } }
          else none
      | .waiting => none
      | .print =>
          some { state with
            consumer := ⟨state.consumer.index + 1, .lock⟩
            printed := state.printed ++ [state.data] }
  | .wakeProducer =>
      if state.producer.place = .waiting then some { state with producer := state.producer.wake }
      else none
  | .wakeConsumer =>
      if state.consumer.place = .waiting then some { state with consumer := state.consumer.wake }
      else none

def boot : State where
  data := 0
  ready := false
  producer := ⟨0, .lock⟩
  consumer := ⟨0, .lock⟩
  created := []
  printed := []

def system (iterations : Nat) : System State Label where
  init state := state = boot
  step state label after := advance iterations state label = some after

def State.Finished (iterations : Nat) (state : State) : Prop :=
  state.producer = ⟨iterations, .lock⟩ ∧ state.consumer = ⟨iterations, .lock⟩

instance (iterations : Nat) (state : State) : Decidable (state.Finished iterations) :=
  inferInstanceAs (Decidable (_ ∧ _))

def items (count : Nat) : List Int := (List.range count).map fun item : Nat => (item : Int) + 1

theorem items_succ (count : Nat) : items (count + 1) = items count ++ [(count : Int) + 1] := by
  rw [items, List.range_succ, List.map_append]
  rfl

/-- The producer does not write while the consumer has an item that it has not printed. -/
def Undisturbed (state : State) (label : Label) : Prop :=
  ¬ (label = .producer ∧ state.producer.place = .lock ∧ state.ready = false ∧
    state.consumer.place = .print)

instance (state : State) (label : Label) : Decidable (Undisturbed state label) :=
  inferInstanceAs (Decidable (¬ _))

namespace Thread

/-- How often the thread has been through the section that changes `ready`. -/
def sections (thread : Thread) : Nat :=
  if thread.place = .print then thread.index + 1 else thread.index

theorem sections_print (index : Nat) : sections ⟨index, .print⟩ = index + 1 := rfl

theorem wake_index (thread : Thread) : thread.wake.index = thread.index := by
  unfold wake
  split_ifs <;> rfl

theorem wake_place (thread : Thread) : thread.wake.place ≠ .waiting := by
  unfold wake
  split_ifs with waiting
  · simp
  · exact waiting

theorem wake_print (thread : Thread) : thread.wake.place = .print ↔ thread.place = .print := by
  unfold wake
  split_ifs with waiting
  · simp [waiting]
  · rfl

theorem wake_sections (thread : Thread) : thread.wake.sections = thread.sections := by
  simp only [sections, wake_print, wake_index]

end Thread

/-- `data` is always the last item produced. -/
structure Sound (iterations : Nat) (state : State) : Prop where
  data : state.data = state.producer.sections
  handed : state.producer.sections = state.consumer.sections + state.ready.toNat
  produced : state.producer.sections ≤ iterations
  producerWaits : state.producer.place = .waiting →
    state.ready = true ∧ state.producer.index < iterations
  consumerWaits : state.consumer.place = .waiting →
    state.ready = false ∧ state.consumer.index < iterations
  created : state.created = items state.producer.index
  printed : state.printed.length = state.consumer.index

theorem boot_sound (iterations : Nat) : Sound iterations boot where
  data := rfl
  handed := rfl
  produced := Nat.zero_le _
  producerWaits waiting := by cases waiting
  consumerWaits waiting := by cases waiting
  created := rfl
  printed := rfl

theorem producer_sound {iterations : Nat} {state after : State} (sound : Sound iterations state)
    (advanced : advance iterations state .producer = some after) : Sound iterations after := by
  obtain ⟨data, ready, ⟨index, place⟩, consumer, created, printed⟩ := state
  have handed := sound.handed
  have produced := sound.produced
  cases place with
  | waiting => cases advanced
  | lock =>
      simp only [advance] at advanced
      split_ifs at advanced with more full
      · cases advanced
        exact
          { sound with
            producerWaits := fun _ => ⟨full, more⟩ }
      · cases advanced
        rw [Bool.not_eq_true] at full
        subst full
        simp only [Thread.sections, reduceCtorEq, if_false, Bool.toNat_false] at handed
        constructor
        · exact (Int.natCast_succ index).symm
        · simp only [Thread.wake_sections, Thread.sections_print, Bool.toNat_true]
          exact congrArg (· + 1) handed
        · exact more
        · intro waiting
          cases waiting
        · intro waiting
          exact absurd waiting consumer.wake_place
        · exact sound.created
        · simp only [Thread.wake_index]
          exact sound.printed
  | print =>
      cases advanced
      constructor
      · exact sound.data
      · exact handed
      · exact produced
      · intro waiting
        cases waiting
      · exact sound.consumerWaits
      · have before : created = items index := sound.created
        have value : data = (index : Int) + 1 := sound.data
        show created ++ [data] = items (index + 1)
        rw [items_succ, before, value]
      · exact sound.printed

theorem consumer_sound {iterations : Nat} {state after : State} (sound : Sound iterations state)
    (advanced : advance iterations state .consumer = some after) : Sound iterations after := by
  obtain ⟨data, ready, producer, ⟨index, place⟩, created, printed⟩ := state
  have handed := sound.handed
  cases place with
  | waiting => cases advanced
  | lock =>
      simp only [advance] at advanced
      split_ifs at advanced with more empty
      · cases advanced
        exact
          { sound with
            consumerWaits := fun _ => ⟨empty, more⟩ }
      · cases advanced
        rw [Bool.not_eq_false] at empty
        subst empty
        simp only [Thread.sections, reduceCtorEq, if_false, Bool.toNat_true] at handed
        constructor
        · simp only [Thread.wake_sections]
          exact sound.data
        · simp only [Thread.wake_sections, Thread.sections_print, Bool.toNat_false]
          exact handed
        · simp only [Thread.wake_sections]
          exact sound.produced
        · intro waiting
          exact absurd waiting producer.wake_place
        · intro waiting
          cases waiting
        · simp only [Thread.wake_index]
          exact sound.created
        · exact sound.printed
  | print =>
      cases advanced
      constructor
      · exact sound.data
      · exact handed
      · exact sound.produced
      · exact sound.producerWaits
      · intro waiting
        cases waiting
      · exact sound.created
      · simp only [List.length_append, List.length_singleton, sound.printed]

theorem step_sound {iterations : Nat} {state after : State} {label : Label}
    (sound : Sound iterations state) (advanced : advance iterations state label = some after) :
    Sound iterations after := by
  cases label with
  | producer => exact producer_sound sound advanced
  | consumer => exact consumer_sound sound advanced
  | wakeProducer =>
      simp only [advance] at advanced
      split_ifs at advanced
      cases advanced
      constructor
      · simp only [Thread.wake_sections]
        exact sound.data
      · simp only [Thread.wake_sections]
        exact sound.handed
      · simp only [Thread.wake_sections]
        exact sound.produced
      · intro waiting
        exact absurd waiting state.producer.wake_place
      · exact sound.consumerWaits
      · simp only [Thread.wake_index]
        exact sound.created
      · exact sound.printed
  | wakeConsumer =>
      simp only [advance] at advanced
      split_ifs at advanced
      cases advanced
      constructor
      · exact sound.data
      · simp only [Thread.wake_sections]
        exact sound.handed
      · exact sound.produced
      · exact sound.producerWaits
      · intro waiting
        exact absurd waiting state.consumer.wake_place
      · exact sound.created
      · simp only [Thread.wake_index]
        exact sound.printed

/-- The consumer has printed a wrong value, or is about to. -/
def Spoiled (state : State) : Prop :=
  (state.consumer.place = .print ∧ state.ready = true) ∨
    state.printed ≠ items state.consumer.index

/-- What the consumer prints is right unless the next item has been produced meanwhile. -/
theorem print_right_iff {iterations : Nat} {state : State} (sound : Sound iterations state)
    (printing : state.consumer.place = .print) :
    state.printed ++ [state.data] = items (state.consumer.index + 1) ↔
      state.printed = items state.consumer.index ∧ state.ready = false := by
  have taken : state.consumer.sections = state.consumer.index + 1 := by
    rw [Thread.sections, if_pos printing]
  have value : state.data = (state.consumer.index : Int) + 1 + (state.ready.toNat : Int) := by
    rw [sound.data, sound.handed, taken, Int.natCast_add]
    rfl
  rw [items_succ]
  constructor
  · intro right
    obtain ⟨before, last⟩ := List.append_inj' right rfl
    refine ⟨before, ?_⟩
    rw [List.cons.injEq, value] at last
    cases ready : state.ready with
    | false => rfl
    | true =>
        rw [ready, Bool.toNat_true] at last
        omega
  · rintro ⟨before, empty⟩
    rw [before, value, empty]
    simp

theorem step_spoiled {iterations : Nat} {state after : State} {label : Label}
    (sound : Sound iterations state) (advanced : advance iterations state label = some after) :
    Spoiled after ↔ Spoiled state ∨ ¬ Undisturbed state label := by
  have right := print_right_iff sound
  obtain ⟨data, ready, ⟨produced, place⟩, ⟨index, consumerPlace⟩, created, printed⟩ := state
  cases label with
  | producer =>
      cases place with
      | waiting => cases advanced
      | lock =>
          simp only [advance] at advanced
          split_ifs at advanced with more full
          · cases advanced
            simp [Spoiled, Undisturbed, full]
          · cases advanced
            rw [Bool.not_eq_true] at full
            simp [Spoiled, Undisturbed, full, Thread.wake_print, Thread.wake_index, or_comm]
      | print =>
          cases advanced
          simp [Spoiled, Undisturbed]
  | consumer =>
      cases consumerPlace with
      | waiting => cases advanced
      | lock =>
          simp only [advance] at advanced
          split_ifs at advanced with more empty
          · cases advanced
            simp [Spoiled, Undisturbed]
          · cases advanced
            simp [Spoiled, Undisturbed]
      | print =>
          cases advanced
          have printedRight := right rfl
          simp only at printedRight
          simp only [Spoiled, Undisturbed, printedRight, reduceCtorEq, false_and, false_or,
            true_and, not_false_iff, not_true_eq_false, or_false, ne_eq]
          cases ready <;> simp
  | wakeProducer =>
      simp only [advance] at advanced
      split_ifs at advanced
      cases advanced
      simp [Spoiled, Undisturbed]
  | wakeConsumer =>
      simp only [advance] at advanced
      split_ifs at advanced
      cases advanced
      simp [Spoiled, Undisturbed, Thread.wake_print, Thread.wake_index]

theorem producer_blocked {iterations : Nat} {state : State}
    (none : advance iterations state .producer = none) :
    state.producer.place = .waiting ∨
      (state.producer.place = .lock ∧ iterations ≤ state.producer.index) := by
  cases place : state.producer.place with
  | waiting => exact Or.inl rfl
  | print => simp [advance, place] at none
  | lock =>
      refine Or.inr ⟨rfl, ?_⟩
      by_contra more
      rw [Nat.not_le] at more
      simp only [advance, place, if_pos more] at none
      split_ifs at none

theorem consumer_blocked {iterations : Nat} {state : State}
    (none : advance iterations state .consumer = none) :
    state.consumer.place = .waiting ∨
      (state.consumer.place = .lock ∧ iterations ≤ state.consumer.index) := by
  cases place : state.consumer.place with
  | waiting => exact Or.inl rfl
  | print => simp [advance, place] at none
  | lock =>
      refine Or.inr ⟨rfl, ?_⟩
      by_contra more
      rw [Nat.not_le] at more
      simp only [advance, place, if_pos more] at none
      split_ifs at none

/-- No run gets stuck, even if no thread wakes without a signal. -/
theorem Sound.progress {iterations : Nat} {state : State} (sound : Sound iterations state) :
    state.Finished iterations ∨ advance iterations state .producer ≠ none ∨
      advance iterations state .consumer ≠ none := by
  by_contra stuck
  rw [not_or, not_or, not_not, not_not] at stuck
  obtain ⟨unfinished, producerNone, consumerNone⟩ := stuck
  have producerWaits := sound.producerWaits
  have consumerWaits := sound.consumerWaits
  have handed := sound.handed
  have produced := sound.produced
  apply unfinished
  obtain ⟨data, ready, ⟨made, producerPlace⟩, ⟨taken, consumerPlace⟩, created, printed⟩ := state
  rcases producer_blocked producerNone with producerWaiting | ⟨atLock, madeAll⟩
  · obtain ⟨full, more⟩ := producerWaits producerWaiting
    rcases consumer_blocked consumerNone with consumerWaiting | ⟨atLock, takenAll⟩
    · rw [(consumerWaits consumerWaiting).1] at full
      cases full
    · simp only at producerWaiting atLock full takenAll more
      simp [Thread.sections, producerWaiting, atLock, full] at handed
      omega
  · rcases consumer_blocked consumerNone with consumerWaiting | ⟨consumerAtLock, takenAll⟩
    · obtain ⟨empty, more⟩ := consumerWaits consumerWaiting
      simp only at consumerWaiting atLock empty madeAll more
      simp [Thread.sections, consumerWaiting, atLock, empty] at handed
      omega
    · simp only at consumerAtLock atLock madeAll takenAll
      simp [Thread.sections, consumerAtLock, atLock] at handed produced
      have whole : made = iterations := by omega
      have all : taken = iterations := by omega
      simp only [State.Finished, whole, all, atLock, consumerAtLock, and_self]

theorem reachable_sound {iterations : Nat} {state : State}
    (reached : Reachable (system iterations) state) : Sound iterations state := by
  apply reachable_invariant _ _ reached
  · rintro _ rfl
    exact boot_sound iterations
  · intro state label after _ sound taken
    exact step_sound sound taken

theorem boot_unspoiled : ¬ Spoiled boot := by
  rintro (⟨printing, _⟩ | wrong)
  · cases printing
  · exact wrong rfl

theorem guarded_unspoiled {iterations : Nat} {state : State}
    (reached : Reachable (guarded (system iterations) Undisturbed) state) : ¬ Spoiled state := by
  apply guarded_not_breached _ _ reached
  · rintro _ rfl
    exact boot_unspoiled
  · intro state label after prior taken
    exact step_spoiled (reachable_sound prior) taken

/-- In an undisturbed run the consumer prints `1, 2, ..` up to the last item; a run that ends
with all items printed in this order was undisturbed. -/
theorem printed_in_order_iff_undisturbed (iterations : Nat) :
    (∀ state, Reachable (guarded (system iterations) Undisturbed) state →
      state.printed = items state.consumer.index ∧
        (state.Finished iterations ∨ advance iterations state .producer ≠ none ∨
          advance iterations state .consumer ≠ none)) ∧
      ∀ labels state, run (advance iterations) boot labels = some state →
        state.Finished iterations →
          (state.printed = items iterations ↔
            run (guardedNext (advance iterations) Undisturbed) boot labels = some state) := by
  constructor
  · intro state reached
    have unspoiled := guarded_unspoiled reached
    rw [Spoiled, not_or, not_not] at unspoiled
    exact ⟨unspoiled.2, (reachable_sound (reachable_of_guarded reached)).progress⟩
  · intro labels state result finished
    have whole := run_guarded_iff (fun _ _ _ => step_sound) (fun _ _ _ => step_spoiled)
      (boot_sound iterations) result
    rw [and_iff_right boot_unspoiled] at whole
    rw [← whole, Spoiled, finished.2]
    simp

/-- The first item is lost and the second printed twice. -/
theorem second_item_printed_twice :
    ¬ ∀ iterations labels state, run (advance iterations) boot labels = some state →
      state.Finished iterations → state.printed = items iterations := by
  intro always
  let round : List Label := [.producer, .producer, .consumer, .consumer]
  have result : (run (advance 10) boot ([.producer, .producer, .consumer, .producer, .consumer,
      .consumer, .consumer, .producer] ++ (List.replicate 8 round).flatten)).any (fun state =>
        state.Finished 10 ∧ state.printed ≠ items 10) = true := by decide +kernel
  obtain ⟨state, ended, wrong⟩ := (Option.any_eq_true _ _).mp result
  obtain ⟨finished, differs⟩ := of_decide_eq_true wrong
  exact differs (always 10 _ state ended finished)

end LinuxSystemPrograms.ProdConsProb
